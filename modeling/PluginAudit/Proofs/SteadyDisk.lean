import PluginAudit.Host.Installation
import PluginAudit.Proofs.FileAnswers

/-!
# Installations on a disk that does not change

An installation answers from its disk and from the plugins it has listed before. As long as the disk
does not change, it is a host with fixed answers (`Installation.onDisk`): whatever is asked, and
whether or not the plugins are listed on the way, the result is the same (`inspect_eq_outcome`). Its
answers about files are those of the disk, and what it finds in a directory is what the directory
lists (`findsFiles_onDisk`).
-/

namespace PluginAudit.Host

/-- Whether a question is about the installed plugins. -/
def Query.isAboutPlugins : Query → Bool
  | .isPluginActive _ => true
  | .pluginNames => true
  | .isMasterPlugin _ => true
  | _ => false

/-- A disk whose answers never change. -/
abbrev Disk.Fixed := (q : Disk.Query) → Disk.Answer q

namespace Lookup

variable {α β : Type} (disk : Disk.Fixed) (known : Option Plugins)

/-- The result of a lookup and the plugins that are known after it. -/
def hold (l : Lookup α) : Except Failure α × Option Plugins := (Dialogue.run disk (l known)).2

theorem bind_apply (l : Lookup α) (f : α → Lookup β) :
    (l >>= f) known = (l known).bind fun (r, k) =>
      match r with
      | .ok a => f a k
      | .error e => .done (.error e, k) := by
  show Dialogue.bind _ _ = _
  congr 1
  funext x
  rcases x with ⟨r | r, k⟩ <;> rfl

theorem hold_bind (l : Lookup α) (f : α → Lookup β) :
    hold disk known (l >>= f) =
      match hold disk known l with
      | (.ok a, k) => hold disk k (f a)
      | (.error e, k) => (.error e, k) := by
  rw [hold, bind_apply, Dialogue.run_bind, hold]
  rcases Dialogue.run disk (l known) with ⟨lines, r | r, k⟩ <;> rfl

theorem hold_fact (d : DiskInquiry α) :
    hold disk known (fact d) = (.ok (Dialogue.run disk d).2, known) := by
  have hbind : fact d known = d.bind fun a => .done (.ok a, known) := by
    show Dialogue.bind (Dialogue.bind _ _) _ = _
    rw [Dialogue.bind_assoc]
    rfl
  rw [hold, hbind, Dialogue.run_bind]
  rfl

theorem hold_granted (d : DiskInquiry (Except SystemError α)) :
    hold disk known (granted d) = ((Dialogue.run disk d).2.mapError .system, known) := by
  rw [granted, hold_bind, hold_fact]
  cases (Dialogue.run disk d).2 <;> rfl

variable {disk}

/-! ## Lookups about files -/

/-- The result of a lookup that begins without knowing the plugins. -/
def result (disk : Disk.Fixed) (l : Lookup α) : Except Failure α := (hold disk none l).1

theorem result_granted (d : DiskInquiry (Except SystemError α)) :
    result disk (granted d) = (Dialogue.run disk d).2.mapError .system := by
  rw [result, hold_granted]

/-- What comes of a lookup does not depend on the plugins that are known, and it makes none
known. -/
structure Stateless (disk : Disk.Fixed) (l : Lookup α) : Prop where
  eq : ∀ known, hold disk known l = (result disk l, known)

namespace Stateless

theorem pure (a : α) : Stateless disk (pure a) := ⟨fun _ => rfl⟩

theorem fact (d : DiskInquiry α) : Stateless disk (fact d) :=
  ⟨fun known => by rw [result, hold_fact, hold_fact]⟩

theorem bind {l : Lookup α} {f : α → Lookup β} (hl : Stateless disk l)
    (hf : ∀ a, Stateless disk (f a)) : Stateless disk (l >>= f) := by
  refine ⟨fun known => ?_⟩
  rw [result, hold_bind, hold_bind, hl.eq known, hl.eq none]
  cases result disk l with
  | ok a => exact (hf a).eq known
  | error e => rfl

theorem granted (d : DiskInquiry (Except SystemError α)) : Stateless disk (granted d) :=
  ⟨fun known => by rw [result, hold_granted, hold_granted]⟩

theorem result_eq {l : Lookup α} (hl : Stateless disk l) (known : Option Plugins) :
    (hold disk known l).1 = result disk l := by
  rw [hl.eq known]

theorem result_bind {l : Lookup α} (hl : Stateless disk l) (f : α → Lookup β) :
    result disk (l >>= f) = result disk l >>= fun a => result disk (f a) := by
  rw [result, hold_bind, hl.eq none]
  cases result disk l <;> rfl

theorem ite {p : Prop} [Decidable p] {l m : Lookup α} (hl : Stateless disk l)
    (hm : Stateless disk m) : Stateless disk (if p then l else m) := by
  split
  · exact hl
  · exact hm

end Stateless

end Lookup

namespace Installation

open Lookup (Stateless)

variable {disk : Disk.Fixed}

theorem stateless_isFile (path : String) : Stateless disk (isFile path) :=
  .bind (.granted _) fun _ => .pure _

theorem stateless_listDirectory (path : String) : Stateless disk (listDirectory path) :=
  .bind (.granted _) fun _ => .ite (.bind (.granted _) fun _ => .pure _) (.pure _)

theorem stateless_filesAmong (directory : String) (names : List String) :
    Stateless disk (filesAmong directory names) := by
  induction names with
  | nil => exact .pure _
  | cons name names ih => exact .bind (stateless_isFile _) fun _ => .bind ih fun _ => .pure _

variable (i : Installation)

theorem stateless_findFiles (directory : String) (keep : String → Bool) :
    Stateless disk (i.findFiles directory keep) :=
  .bind (stateless_listDirectory _) fun _ => stateless_filesAmong _ _

theorem stateless_versionIn (path : String) (version : Executable.Versions → String) :
    Stateless disk (versionIn path version) :=
  .bind (.granted _) fun _ => .pure _

/-- A question that is not about the plugins is answered from the disk alone. -/
theorem stateless_answer {q : Query} (hq : q.isAboutPlugins = false) :
    Stateless disk (i.answer q) := by
  cases q with
  | findFiles directory keep => exact i.stateless_findFiles directory keep
  | listDirectory path => exact stateless_listDirectory path
  | isPresent path => exact .fact _
  | isFile path => exact stateless_isFile path
  | isReadable path => exact .fact _
  | contentOf path => exact .granted _
  | fileVersion path => exact stateless_versionIn path _
  | productVersion path => exact stateless_versionIn path _
  | contentVersion path => exact .pure _
  | structureOf content file => exact ⟨fun _ => rfl⟩
  | isPluginActive plugin => cases hq
  | pluginNames => cases hq
  | isMasterPlugin plugin => cases hq

/-- A question about the plugins goes on from the listed ones and does not look for them again. -/
theorem exists_answer_eq_bind {q : Query} (hq : q.isAboutPlugins = true) :
    ∃ f : Plugins → Lookup (Value q),
      i.answer q = i.plugins >>= f ∧ ∀ ps, Stateless disk (f ps) := by
  cases q with
  | pluginNames =>
    refine ⟨_, rfl, fun ps => ?_⟩
    split
    · exact .pure _
    · exact .pure _
  | isPluginActive plugin =>
    refine ⟨_, rfl, fun ps => ?_⟩
    split
    · exact .pure _
    · exact .pure _
  | isMasterPlugin plugin =>
    refine ⟨_, rfl, fun ps => ?_⟩
    split
    · exact .pure _
    · refine .bind (.granted _) fun header => ?_
      split
      · exact .pure _
      · exact .pure _
  | _ => cases hq

/-! ## Plugins are listed once -/

/-- What may be known some time after the plugins known were `k₀`: the same, or, where none were
known, the plugins on the disk. -/
def Since (disk : Disk.Fixed) (k₀ k : Option Plugins) : Prop :=
  k = k₀ ∨ k₀ = none ∧ ∃ paths,
    Lookup.result disk (i.findFiles "" isPluginName) = .ok paths ∧
      k = some (pluginsAt paths)

/-- Plugins that are known stay what they are. -/
theorem hold_plugins_some (disk : Disk.Fixed) (ps : Plugins) :
    Lookup.hold disk (some ps) i.plugins = (.ok ps, some ps) := rfl

/-- Plugins that are not known are listed, and kept if that succeeds. -/
theorem hold_plugins_none (disk : Disk.Fixed) :
    Lookup.hold disk none i.plugins =
      match Lookup.result disk (i.findFiles "" isPluginName) with
      | .ok paths => (.ok (pluginsAt paths), some (pluginsAt paths))
      | .error e => (.error e, none) := by
  show Lookup.hold disk none (i.findFiles "" isPluginName >>= _) = _
  rw [Lookup.hold_bind, (i.stateless_findFiles "" isPluginName).eq none]
  cases Lookup.result disk (i.findFiles "" isPluginName) <;> rfl

/-- The plugins that become known on the way do not change what comes of a lookup. -/
structure Steady (disk : Disk.Fixed) (k₀ : Option Plugins) {α : Type} (l : Lookup α) : Prop where
  eq : ∀ k, i.Since disk k₀ k →
    (Lookup.hold disk k l).1 = (Lookup.hold disk k₀ l).1 ∧ i.Since disk k₀ (Lookup.hold disk k l).2

namespace Steady

variable {i} {k₀ : Option Plugins} {α β : Type}

theorem of_stateless {l : Lookup α} (h : Stateless disk l) : i.Steady disk k₀ l := by
  refine ⟨fun k hk => ?_⟩
  rw [h.eq k, h.eq k₀]
  exact ⟨rfl, hk⟩

theorem bind {l : Lookup α} {f : α → Lookup β} (hl : i.Steady disk k₀ l)
    (hf : ∀ a, i.Steady disk k₀ (f a)) : i.Steady disk k₀ (l >>= f) := by
  refine ⟨fun k hk => ?_⟩
  obtain ⟨hr, hs⟩ := hl.eq k hk
  obtain ⟨-, hs₀⟩ := hl.eq k₀ (.inl rfl)
  rw [Lookup.hold_bind, Lookup.hold_bind]
  cases hone : Lookup.hold disk k l with
  | mk r k' =>
    cases htwo : Lookup.hold disk k₀ l with
    | mk r₀ k₀' =>
      rw [hone] at hr hs
      rw [htwo] at hr hs₀
      cases hr
      cases r with
      | error e => exact ⟨rfl, hs⟩
      | ok a =>
        exact ⟨((hf a).eq k' hs).1.trans ((hf a).eq k₀' hs₀).1.symm, ((hf a).eq k' hs).2⟩

/-- The plugins are the same at any time. -/
theorem plugins : i.Steady disk k₀ i.plugins := by
  refine ⟨fun k hk => ?_⟩
  rcases hk with rfl | ⟨rfl, paths, hpaths, rfl⟩
  · refine ⟨rfl, ?_⟩
    cases k with
    | some ps => exact .inl rfl
    | none =>
      rw [hold_plugins_none]
      cases hpaths : Lookup.result disk (i.findFiles "" isPluginName) with
      | error e => exact .inl rfl
      | ok paths => exact .inr ⟨rfl, paths, hpaths, rfl⟩
  · rw [hold_plugins_some, hold_plugins_none, hpaths]
    exact ⟨rfl, .inr ⟨rfl, paths, hpaths, rfl⟩⟩

theorem answer (q : Query) : i.Steady disk k₀ (i.answer q) := by
  cases hq : q.isAboutPlugins with
  | false => exact .of_stateless (i.stateless_answer hq)
  | true =>
    obtain ⟨f, hanswer, hf⟩ := i.exists_answer_eq_bind hq
    rw [hanswer]
    exact .bind .plugins fun ps => .of_stateless (hf ps)

end Steady

/-! ## The host that an installation is -/

/-- The answers of an installation whose disk does not change. -/
def onDisk (disk : Disk.Fixed) (known : Option Plugins) : Fixed :=
  fun q => (Lookup.hold disk known (i.answer q)).1

/-- What becomes of an inspection of an installation that knows its plugins or does not. -/
def inspect (disk : Disk.Fixed) (known : Option Plugins) {α : Type} (x : Inspection α) :
    Except Failure α :=
  (Dialogue.run disk ((i.hold x.start) known)).2.1

theorem run_hold (known : Option Plugins) {α : Type} (d : Inquiry α) {k : Option Plugins}
    (hk : i.Since disk known k) :
    (Dialogue.run disk ((i.hold d) k)).2.1 = (Dialogue.run (i.onDisk disk known) d).2 := by
  induction d generalizing k with
  | done a => rfl
  | ask q next ih =>
    obtain ⟨hr, hs⟩ := (Steady.answer q).eq k hk
    have hbind : i.hold (.ask q next) k =
        (i.answer q k).bind fun (r, k') => i.hold (next r) k' := rfl
    rw [hbind, Dialogue.run_bind]
    show (Dialogue.run disk (i.hold (next (Lookup.hold disk k (i.answer q)).1)
      (Lookup.hold disk k (i.answer q)).2)).2.1 = _
    rw [ih _ hs, hr]
    rfl
  | note n next ih => exact ih () hk

/-- An installation whose disk does not change is a host with fixed answers. -/
theorem inspect_eq_outcome (known : Option Plugins) {α : Type} (x : Inspection α) :
    i.inspect disk known x = Inspection.outcome (i.onDisk disk known) none x := by
  rw [inspect, i.run_hold known x.start (.inl rfl)]
  show (Dialogue.run _ (Dialogue.bind _ _)).2 = _
  rw [Dialogue.run_bind]
  rfl

/-! ## What it says about files -/

variable (disk) (known : Option Plugins)

theorem result_isFile (path : String) :
    Lookup.result disk (isFile path) = (do
      let kind ← (disk (.kindOf path) : Except SystemError (Option FileKind)).mapError .system
      return kind == some .file) := by
  rw [isFile, (Stateless.granted _).result_bind, Lookup.result_granted]
  rfl

theorem result_listDirectory (path : String) :
    Lookup.result disk (listDirectory path) = (do
      let kind ← (disk (.kindOf path) : Except SystemError (Option FileKind)).mapError .system
      if kind == some .directory then
        let names ← (disk (.namesIn path) : Except SystemError (List String)).mapError .system
        return names.mergeSort Text.unitsLe
      else return []) := by
  rw [listDirectory, (Stateless.granted _).result_bind, Lookup.result_granted]
  refine bind_congr fun kind => ?_
  split
  · rw [(Stateless.granted _).result_bind, Lookup.result_granted]
    rfl
  · rfl

/-- A name in a directory is one that the disk lists there. -/
theorem exists_listed {path name : String} {names : List String}
    (h : Lookup.result disk (listDirectory path) = .ok names) (hname : name ∈ names) :
    ∃ listed, disk (.namesIn path) = .ok listed ∧ name ∈ listed := by
  rw [result_listDirectory] at h
  obtain ⟨kind, -, h⟩ := exists_of_bind_ok h
  split at h
  · obtain ⟨listed, hlisted, h⟩ := exists_of_bind_ok h
    cases h
    exact ⟨listed, ok_of_mapError hlisted, List.mem_mergeSort.1 hname⟩
  · cases h
    exact absurd hname List.not_mem_nil

theorem result_filesAmong (directory : String) (names : List String) :
    Lookup.result disk (filesAmong directory names) =
      Host.filesAmong (i.onDisk disk known) directory names := by
  induction names with
  | nil => rfl
  | cons name names ih =>
    have hfile : i.onDisk disk known (.isFile (Path.child directory name)) =
        Lookup.result disk (isFile (Path.child directory name)) :=
      (stateless_isFile _).result_eq known
    rw [filesAmong, Host.filesAmong, hfile, (stateless_isFile _).result_bind]
    refine bind_congr fun there => ?_
    rw [(stateless_filesAmong _ _).result_bind, ih]
    rfl

theorem onDisk_isFile (path : String) :
    i.onDisk disk known (.isFile path) = Lookup.result disk (isFile path) :=
  (stateless_isFile path).result_eq known

theorem onDisk_listDirectory (path : String) :
    i.onDisk disk known (.listDirectory path) = Lookup.result disk (listDirectory path) :=
  (stateless_listDirectory path).result_eq known

theorem onDisk_isPresent (path : String) :
    i.onDisk disk known (.isPresent path) = .ok (disk (.isPresent path)) := rfl

theorem onDisk_contentOf (path : String) :
    i.onDisk disk known (.contentOf path) =
      (disk (.contentOf path) : Except SystemError ByteArray).mapError .system :=
  congrArg Prod.fst (Lookup.hold_granted disk known (Disk.contentOf path))

/-- An installation finds among the names that a directory lists those that are files. -/
theorem findsFiles_onDisk
    (hnames : ∀ path names, disk (.namesIn path) = .ok names →
      ∀ name ∈ names, Path.IsName name.toList) :
    FindsFiles (i.onDisk disk known) i.directories := by
  constructor
  · intro directory keep
    have hfind : i.onDisk disk known (.findFiles directory keep) =
        Lookup.result disk (i.findFiles directory keep) :=
      (i.stateless_findFiles directory keep).result_eq known
    rw [hfind, onDisk_listDirectory, findFiles, (stateless_listDirectory _).result_bind]
    exact bind_congr fun names => i.result_filesAmong disk known _ _
  · intro place names hlist name hname
    rw [onDisk_listDirectory] at hlist
    obtain ⟨listed, hlisted, hmem⟩ := exists_listed disk hlist hname
    exact hnames place listed hlisted name hmem

end Installation

end PluginAudit.Host
