import PluginAudit.Proofs.Attempts
import PluginAudit.Proofs.ConditionSteps
import PluginAudit.Proofs.PathParts

/-!
# What hosts say about files

A host answers several questions about one and the same files: which of them a directory has, what a
directory lists, whether there is a file at a path. `FindsFiles` says how the first two belong
together, `Consistent` how all of them do. Every host is to keep to this, and it is all that is
known of a host where the functions of a condition look for a file; what they find is worked out
here once (`outcome_locate_data`, `outcome_locate_game`).
-/

namespace PluginAudit

namespace Host

open Path

/-- Whether a host says that there is a file at a path. -/
def hasFile (host : Fixed) (place : String) : Bool :=
  match (host (.isFile place) : Except Failure Bool) with
  | .ok there => there
  | .error _ => false

/-- The paths of those names in a directory that are files. -/
def filesAmong (host : Fixed) (directory : String) : List String → Except Failure (List String)
  | [] => .ok []
  | name :: names => do
    let there : Bool ← host (.isFile (child directory name))
    let paths ← filesAmong host directory names
    return if there then child directory name :: paths else paths

/-- A host finds in a directory, seen from the data directory, those of the listed names that pass
the test and are files. -/
structure FindsFiles (host : Fixed) (dirs : Directories) : Prop where
  findFiles : ∀ directory keep, host (.findFiles directory keep) = (do
    let names : List String ← host (.listDirectory (resolve dirs.data directory))
    filesAmong host (resolve dirs.data directory) (names.filter keep))
  isName : ∀ {place : String} {names : List String}, host (.listDirectory place) = .ok names →
    ∀ name ∈ names, IsName name.toList

/-- The answers of a host about files do not contradict each other. -/
structure Consistent (host : Fixed) (dirs : Directories) : Prop extends FindsFiles host dirs where
  /-- A directory lists the files in it. -/
  listed : ∀ {directory : String} {names : List String} {name : String}, IsNormal directory →
    host (.listDirectory directory) = .ok names → IsName name.toList →
    hasFile host (child directory name) = true → name ∈ names
  /-- What is there is a file or not, and where nothing is there is no file. -/
  present : ∀ place, ∃ there : Bool, host (.isPresent place) = .ok there ∧
    if there = true then host (.isFile place) = .ok (hasFile host place)
    else hasFile host place = false

variable {host : Fixed} {dirs : Directories}

theorem hasFile_of_isFile {place : String} {there : Bool} (h : host (.isFile place) = .ok there) :
    hasFile host place = there := by
  rw [hasFile, h]

theorem isFile_of_hasFile {place : String} (h : hasFile host place = true) :
    host (.isFile place) = .ok true := by
  unfold hasFile at h
  split at h
  · next there hthere => rw [hthere, h]
  · cases h

/-- If it is known of all names whether they are files, the files among them are. -/
theorem filesAmong_eq {directory : String} {names : List String}
    (h : ∀ name ∈ names, ∃ there : Bool, host (.isFile (child directory name)) = .ok there) :
    filesAmong host directory names =
      .ok ((names.filter fun name => hasFile host (child directory name)).map
        (child directory)) := by
  induction names with
  | nil => rfl
  | cons name names ih =>
    obtain ⟨⟨there, hthere⟩, hnames⟩ := List.forall_mem_cons.1 h
    rw [filesAmong, hthere, ih hnames, List.filter_cons, hasFile_of_isFile hthere]
    cases there <;> rfl

/-- Files are found among names only if it is known of all of them whether they are files. -/
theorem isFile_of_filesAmong {directory : String} {names paths : List String}
    (h : filesAmong host directory names = .ok paths) :
    ∀ name ∈ names, ∃ there : Bool, host (.isFile (child directory name)) = .ok there := by
  induction names generalizing paths with
  | nil => exact fun _ hmem => absurd hmem List.not_mem_nil
  | cons name names ih =>
    obtain ⟨there, hthere, h⟩ := exists_of_bind_ok h
    obtain ⟨rest, hrest, -⟩ := exists_of_bind_ok h
    exact List.forall_mem_cons.2 ⟨⟨there, hthere⟩, ih hrest⟩

/-- What is found in a directory, seen from the data directory. -/
theorem FindsFiles.eq_ok (h : FindsFiles host dirs) {directory : String} {keep : String → Bool}
    {paths : List String} (hfound : host (.findFiles directory keep) = .ok paths) :
    ∃ names : List String, host (.listDirectory (resolve dirs.data directory)) = .ok names ∧
      paths = ((names.filter keep).filter fun name =>
        hasFile host (child (resolve dirs.data directory) name)).map
          (child (resolve dirs.data directory)) := by
  rw [h.findFiles] at hfound
  obtain ⟨names, hnames, hamong⟩ := exists_of_bind_ok hfound
  refine ⟨names, hnames, ?_⟩
  rw [filesAmong_eq (isFile_of_filesAmong hamong)] at hamong
  exact (Except.ok.inj hamong).symm

/-- What is found is a file. -/
theorem FindsFiles.isFile_of_mem (h : FindsFiles host dirs) {directory : String}
    {keep : String → Bool} {paths : List String}
    (hfound : host (.findFiles directory keep) = .ok paths) {path : String} (hpath : path ∈ paths) :
    host (.isFile path) = .ok true := by
  obtain ⟨names, -, rfl⟩ := h.eq_ok hfound
  obtain ⟨name, hname, rfl⟩ := List.mem_map.1 hpath
  exact isFile_of_hasFile (List.mem_filter.1 hname).2

/-- What is found does not depend on how names are judged that are not listed. -/
theorem FindsFiles.congr (h : FindsFiles host dirs) {directory : String}
    {keep keep' : String → Bool} (hkeep : ∀ names : List String,
      host (.listDirectory (resolve dirs.data directory)) = .ok names →
        ∀ name ∈ names, keep name = keep' name) :
    host (.findFiles directory keep) = host (.findFiles directory keep') := by
  rw [h.findFiles, h.findFiles]
  cases hnames : (host (.listDirectory (resolve dirs.data directory)) :
      Except Failure (List String)) with
  | error f => rfl
  | ok names =>
    show filesAmong _ _ _ = filesAmong _ _ _
    rw [List.filter_congr (hkeep names hnames)]

end Host

namespace Inspection

variable {α : Type} (host : Host.Fixed) (s : Option Facts)

theorem outcome_ask (q : Host.Query) : outcome host s (ask q) = host q := rfl

theorem outcome_answer (q : Host.Query) : outcome host s (answer q) = .ok (host q) := rfl

/-- Going on with what a host answers. -/
theorem outcome_ask_bind {q : Host.Query} (f : Host.Value q → Inspection α) :
    outcome host s (ask q >>= f) = host q >>= fun a => outcome host s (f a) :=
  outcome_bind host s (ask q) f

/-- Going on unless a condition is refused. -/
theorem outcome_ofFault_bind {β : Type} (r : Except Condition.Fault β) (f : β → Inspection α) :
    outcome host s (ofFault r >>= f) =
      r.mapError Failure.condition >>= fun a => outcome host s (f a) := by
  cases r <;> rfl

end Inspection

namespace Package

open Inspection

variable {host : Host.Fixed}

/-- What a host says about the structure of a plugin: that there is none, what it is, or what is
wrong with it. -/
def structureFound (p : Package) (host : Host.Fixed) (content : ByteArray) :
    Except Failure (Except Plugin.Fault (Option Plugin.Structure)) :=
  if content.size = 0 then .ok (.ok none)
  else match (host (.structureOf content p.name) : Except Failure (Option Plugin.Structure)) with
    | .ok structure? => .ok (.ok structure?)
    | .error (.plugin fault) => .ok (.error fault)
    | .error f => .error f

/-- A structure is found if the host refuses it only because the plugin is not well formed. -/
theorem exists_structureFound {p : Package} {content : ByteArray}
    (h : content.size ≠ 0 →
      ∀ f, host (.structureOf content p.name) = .error f → ∃ fault, f = .plugin fault) :
    ∃ found, p.structureFound host content = .ok found := by
  unfold structureFound
  split
  · exact ⟨_, rfl⟩
  next hsize =>
    cases hs : (host (.structureOf content p.name) :
        Except Failure (Option Plugin.Structure)) with
    | ok structure? => exact ⟨_, rfl⟩
    | error f =>
      obtain ⟨fault, rfl⟩ := h hsize f hs
      exact ⟨_, rfl⟩

/-- The facts of a plugin are the checksum of its content and what is said about its structure. -/
theorem outcome_readFacts (p : Package) : outcome host none p.readFacts =
    host (.contentOf p.path) >>= fun content =>
      (p.structureFound host content).map (⟨Crc32.checksum content, ·⟩) := by
  rw [readFacts, outcome_ask_bind]
  refine bind_congr fun content => ?_
  unfold structureFound
  by_cases hsize : content.size = 0
  · rw [if_pos hsize, if_pos hsize, Crc32.checksum_of_size hsize]
    rfl
  · rw [if_neg hsize, if_neg hsize, outcome_bind, outcome_answer]
    cases (host (.structureOf content p.name) : Except Failure (Option Plugin.Structure)) with
    | ok structure? => rfl
    | error f => cases f <;> rfl

end Package

namespace Condition

open Inspection Path Text

variable {host : Host.Fixed} {dirs : Host.Directories} (s : Option Facts) {path : String}

/-! ## Where a path leads -/

theorem fromGame?_eq_some_iff {rest : String} :
    fromGame? path = some rest ↔ path = "../" ++ rest := by
  rw [fromGame?, Option.map_eq_some_iff]
  constructor
  · rintro ⟨cs, hcs, rfl⟩
    refine String.toList_injective ?_
    rw [afterStart?_eq_some_iff.1 hcs, String.toList_append]
    exact congrArg (['.', '.', '/'] ++ ·) String.toList_ofList.symm
  · rintro rfl
    refine ⟨rest.toList, afterStart?_eq_some_iff.2 ?_, String.ofList_toList⟩
    rw [String.toList_append]
    rfl

theorem outcome_locate_game {rest : String} (h : fromGame? path = some rest) :
    outcome host s (locate dirs path) = (do
      let place ← (insideGame dirs rest path).mapError Failure.condition
      let present : Bool ← host (.isPresent place)
      return if present then some place else none) := by
  unfold locate
  rw [h]
  refine (outcome_ofFault_bind host s _ _).trans (bind_congr fun place => ?_)
  exact outcome_ask_bind (q := .isPresent place) host s _

theorem outcome_locate_data (h : fromGame? path = none) :
    outcome host s (locate dirs path) = (do
      (checkInsideData dirs (split path).1 path).mapError Failure.condition
      let found : List String ← host (.findFiles (split path).1 fun file =>
        lowerString file = lowerString (split path).2)
      return found.head?) := by
  unfold locate
  rw [h]
  refine (outcome_ofFault_bind host s _ _).trans (bind_congr fun _ => ?_)
  exact outcome_ask_bind (q := .findFiles _ _) host s _

/-- From the root of the game, a path is found if anything is there. -/
theorem located_in_game {rest : String} (hgame : fromGame? path = some rest)
    (hinside : isInside dirs.game (resolve dirs.game rest) = true) {there : Bool}
    (hthere : host (.isPresent (resolve dirs.game rest)) = .ok there) :
    outcome host s (locate dirs path) =
      .ok (if there then some (resolve dirs.game rest) else none) := by
  rw [outcome_locate_game s hgame]
  unfold insideGame
  rw [if_pos hinside]
  show host (.isPresent (resolve dirs.game rest)) >>= _ = _
  rw [hthere]
  rfl

theorem after_locate (path : String) : after host s (locate dirs path) = s :=
  ((composed_locate dirs path : Composed false none _).stateless s).2

/-! ## What is asked of what is there -/

theorem outcome_fileExists_literal (h : isPattern path = false) :
    outcome host s (fileExists dirs path) =
      outcome host s (locate dirs path) >>= fun
        | none => .ok false
        | some place => host (.isFile place) := by
  rw [fileExists, if_neg (by rw [h]; decide), outcome_bind, after_locate]
  refine bind_congr fun place? => ?_
  cases place? <;> rfl

/-- From the root of the game, a literal path is that of a file or not. -/
theorem outcome_fileExists_game (hhost : Host.Consistent host dirs) (h : isPattern path = false)
    {rest : String} (hgame : fromGame? path = some rest)
    (hinside : isInside dirs.game (resolve dirs.game rest) = true) :
    outcome host s (fileExists dirs path) = .ok (Host.hasFile host (resolve dirs.game rest)) := by
  obtain ⟨there, hthere, hfile⟩ := hhost.present (resolve dirs.game rest)
  rw [outcome_fileExists_literal s h, located_in_game s hgame hinside hthere]
  cases there with
  | true => exact hfile
  | false => exact congrArg Except.ok (Eq.symm hfile)

theorem outcome_isReadable :
    outcome host s (isReadable dirs path) =
      outcome host s (locate dirs path) >>= fun
        | none => .ok false
        | some place => host (.isReadable place) := by
  rw [isReadable, outcome_bind, after_locate]
  refine bind_congr fun place? => ?_
  cases place? <;> rfl

end Condition

end PluginAudit
