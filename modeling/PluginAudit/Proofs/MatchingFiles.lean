import PluginAudit.Proofs.PatternWays
import PluginAudit.Proofs.TreeWalks

/-!
# The files that match a pattern

A pattern stands for the files of a directory whose names it accepts. Below the data directory only
files are found for it; seen from the root of the game, whatever is listed is found, so that a
directory counts as well (`pattern_finds_directory`). Where all that matches is a file, the
functions of a condition find exactly the matching files (`pattern_finds_files`).
-/

namespace PluginAudit.Condition

open Host Inspection Path

/-- The directory that the directory part of a path leads to. -/
def directoryAt (dirs : Directories) (directory : String) : String :=
  match fromGame? directory with
  | some rest => resolve dirs.game rest
  | none => resolve dirs.data directory

/-- The directory in whose listing a pattern is looked for. -/
def patternDirectory (dirs : Directories) (text : String) : String :=
  directoryAt dirs (split text).1

/-- Whether a pattern accepts a name. -/
def Accepts (text name : String) : Prop :=
  ∃ pattern, NamePattern.compile (split text).2 = .ok pattern ∧ pattern.accepts name = true

/-- A file in the directory of a pattern that the pattern accepts. -/
structure MatchingFile (t : Tree) (dirs : Directories) (text name : String) : Prop where
  listed : name ∈ t.names (patternDirectory dirs text)
  accepted : Accepts text name
  isFile : t.isFile (child (patternDirectory dirs text) name) = true

variable {host : Fixed} {dirs : Directories} {text : String}

theorem accepts_iff {pattern : NamePattern}
    (hpattern : NamePattern.compile (split text).2 = .ok pattern) {name : String} :
    Accepts text name ↔ pattern.accepts name = true := by
  constructor
  · rintro ⟨pattern', hpattern', hname⟩
    cases hpattern.symm.trans hpattern'
    exact hname
  · exact fun hname => ⟨pattern, hpattern, hname⟩

/-! ## What is found for a pattern -/

theorem outcome_matchingPaths (s : Option Facts) :
    outcome host s (matchingPaths dirs text) = (do
      let pattern ← (NamePattern.compile (split text).2).mapError Failure.condition
      match fromGame? (split text).1 with
      | some rest =>
        let place ← (insideGame dirs rest text).mapError Failure.condition
        let names : List String ← host (.listDirectory place)
        return (names.filter pattern.accepts).map (resolve place)
      | none =>
        (checkInsideData dirs (split text).1 text).mapError Failure.condition
        host (.findFiles (split text).1 pattern.accepts)) := by
  unfold matchingPaths
  generalize split text = parts
  obtain ⟨directory, name⟩ := parts
  refine (outcome_ofFault_bind host s _ _).trans (bind_congr fun pattern => ?_)
  dsimp only
  cases fromGame? directory with
  | some rest =>
    refine (outcome_ofFault_bind host s _ _).trans (bind_congr fun place => ?_)
    exact outcome_ask_bind (q := .listDirectory place) host s _
  | none => exact outcome_ofFault_bind host s _ _

/-- What is found for a pattern are the listed names that it accepts and, below the data directory,
that are files. -/
theorem found_of_matchingPaths (hhost : FindsFiles host dirs) {s : Option Facts}
    {paths : List String} (h : outcome host s (matchingPaths dirs text) = .ok paths) :
    ∃ pattern names, NamePattern.compile (split text).2 = .ok pattern ∧
      host (.listDirectory (patternDirectory dirs text)) = .ok names ∧
      paths = (names.filter fun name => pattern.accepts name &&
        ((fromGame? (split text).1).isSome ||
          hasFile host (child (patternDirectory dirs text) name))).map
            (child (patternDirectory dirs text)) := by
  rw [outcome_matchingPaths] at h
  obtain ⟨pattern, hpattern, h⟩ := exists_of_bind_ok h
  rw [patternDirectory, directoryAt]
  cases hgame : fromGame? (split text).1 with
  | none =>
    rw [hgame] at h
    obtain ⟨-, -, h⟩ := exists_of_bind_ok h
    replace h : host (.findFiles (split text).1 pattern.accepts) = .ok paths := h
    obtain ⟨names, hnames, rfl⟩ := hhost.eq_ok h
    refine ⟨pattern, names, ok_of_mapError hpattern, hnames, ?_⟩
    rw [List.filter_filter]
    simp only [Option.isSome_none, Bool.false_or, Bool.and_comm]
  | some rest =>
    rw [hgame] at h
    obtain ⟨place, hinside, h⟩ := exists_of_bind_ok h
    have hplace : resolve dirs.game rest = place := by
      unfold insideGame at hinside
      dsimp only at hinside
      split at hinside
      · exact Except.ok.inj hinside
      · cases hinside
    subst hplace
    obtain ⟨names, hnames, h⟩ := exists_of_bind_ok h
    refine ⟨pattern, names, ok_of_mapError hpattern, hnames, ?_⟩
    rw [← Except.ok.inj h]
    simp only [Option.isSome_some, Bool.true_or, Bool.and_true]
    refine List.map_congr_left fun name hname => ?_
    exact resolve_name isName_of_mem_resolveSegments
      (hhost.isName hnames name (List.mem_filter.1 hname).1)

theorem outcome_fileExists_pattern (h : isPattern text = true) (s : Option Facts) :
    outcome host s (fileExists dirs text) =
      outcome host s (matchingPaths dirs text) >>= fun paths => .ok !paths.isEmpty := by
  rw [fileExists, if_pos h, outcome_bind]
  rfl

/-! ## Patterns on a tree -/

variable {t : Tree} {i : Installation} {known : Option Plugins}

/-- More than one thing is in a list without repetitions if two different ones are. -/
theorem one_lt_length_iff {names : List String} (h : names.Nodup) :
    1 < names.length ↔ ∃ m n, m ≠ n ∧ m ∈ names ∧ n ∈ names := by
  constructor
  · intro hlength
    obtain ⟨m, n, rest, rfl⟩ : ∃ m n rest, names = m :: n :: rest := by
      match names, hlength with
      | m :: n :: rest, _ => exact ⟨m, n, rest, rfl⟩
    obtain ⟨hm, -⟩ := List.nodup_cons.1 h
    exact ⟨m, n, fun he => hm (he ▸ List.mem_cons_self), by simp, by simp⟩
  · rintro ⟨m, n, hne, hm, hn⟩
    match names, hm, hn with
    | [a], hm, hn =>
      exact absurd ((List.mem_singleton.1 hm).trans (List.mem_singleton.1 hn).symm) hne
    | a :: b :: rest, _, _ => simp

/-- Seen from the root of the game, everything in a directory is found that a pattern accepts. -/
theorem found_from_game (rest directory : String) {place : Place} {pattern : NamePattern}
    (hgame : fromGame? (split text).1 = some rest)
    (hinside : insideGame i.directories rest text = .ok directory)
    (hpattern : NamePattern.compile (split text).2 = .ok pattern)
    (hfind : t.find directory = .ok (place, .directory)) :
    i.inspect t.answer known (matchingPaths i.directories text) =
      .ok ((((t.namesAt place).mergeSort Text.unitsLe).filter pattern.accepts).map
        (resolve directory)) := by
  rw [i.inspect_eq_outcome, outcome_matchingPaths, hpattern, hgame]
  show ((insideGame i.directories rest text).mapError Failure.condition >>= _) = _
  rw [hinside]
  show (i.onDisk t.answer known (.listDirectory directory) >>= _) = _
  rw [Tree.onDisk_listDirectory_of_find i known hfind]
  rfl

/-- Where all that matches is a file, what is found are the matching files, each once. -/
theorem found_on_tree (ht : t.WellFormed) {paths : List String}
    (h : i.inspect t.answer known (matchingPaths i.directories text) = .ok paths)
    (hfiles : fromGame? (split text).1 = none ∨
      ∀ name ∈ t.names (patternDirectory i.directories text), Accepts text name →
        t.isFile (child (patternDirectory i.directories text) name) = true) :
    ∃ names : List String, paths = names.map (child (patternDirectory i.directories text)) ∧
      names.Nodup ∧
      ∀ name, name ∈ names ↔ MatchingFile t i.directories text name := by
  have hhost := Tree.consistent_onDisk i known ht
  rw [i.inspect_eq_outcome] at h
  obtain ⟨pattern, listed, hpattern, hlisted, rfl⟩ := found_of_matchingPaths hhost.toFindsFiles h
  cases Tree.onDisk_listDirectory_of_ok i known hlisted
  refine ⟨_, rfl, ?_, fun name => ?_⟩
  · exact ((List.mergeSort_perm ..).nodup_iff.2 (Tree.nodup_names ht _)).filter _
  · rw [List.mem_filter, List.mem_mergeSort, Bool.and_eq_true, Bool.or_eq_true,
      ← accepts_iff hpattern, Tree.hasFile_onDisk]
    constructor
    · rintro ⟨hlist, haccept, hgame | hfile⟩
      · refine ⟨hlist, haccept, (hfiles.resolve_left fun hnone => ?_) name hlist haccept⟩
        rw [hnone] at hgame
        cases hgame
      · exact ⟨hlist, haccept, hfile⟩
    · exact fun hname => ⟨hname.listed, hname.accepted, .inr hname.isFile⟩

/-- Where all that matches a pattern is a file, only files are found for it, and `file` and `many`
say whether there are one or two files that match. -/
theorem pattern_finds_files (ht : t.WellFormed) {paths : List String}
    (h : i.inspect t.answer known (matchingPaths i.directories text) = .ok paths)
    (hfiles : fromGame? (split text).1 = none ∨
      ∀ name ∈ t.names (patternDirectory i.directories text), Accepts text name →
        t.isFile (child (patternDirectory i.directories text) name) = true)
    (context : Option Package) :
    (∀ path ∈ paths, i.inspect t.answer known (Inspection.ask (.isFile path)) = .ok true) ∧
      (isPattern text = true →
        ∃ found, i.inspect t.answer known ((Call.file text).holds i.directories context) =
            .ok found ∧
          (found = true ↔ ∃ name, MatchingFile t i.directories text name)) ∧
      ∃ found, i.inspect t.answer known ((Call.many text).holds i.directories context) =
          .ok found ∧
        (found = true ↔ ∃ m n, m ≠ n ∧ MatchingFile t i.directories text m ∧
          MatchingFile t i.directories text n) := by
  obtain ⟨names, rfl, hnodup, hnames⟩ := found_on_tree ht h hfiles
  rw [i.inspect_eq_outcome] at h
  refine ⟨fun path hpath => ?_, fun hpattern => ?_, ?_⟩
  · obtain ⟨name, hname, rfl⟩ := List.mem_map.1 hpath
    have hfile := ((hnames name).1 hname).isFile
    rw [← Tree.hasFile_onDisk i known] at hfile
    exact (i.inspect_eq_outcome _ _).trans
      ((outcome_ask _ none (.isFile _)).trans (isFile_of_hasFile hfile))
  · refine ⟨!names.isEmpty, ?_, ?_⟩
    · rw [i.inspect_eq_outcome]
      show outcome _ none (fileExists _ _) = _
      rw [outcome_fileExists_pattern hpattern, h]
      show Except.ok _ = _
      rw [List.isEmpty_map]
    · simp only [← hnames, Bool.not_eq_true', List.isEmpty_eq_false_iff_exists_mem]
  · refine ⟨decide (1 < names.length), ?_, ?_⟩
    · rw [i.inspect_eq_outcome]
      show outcome _ none (matchingPaths _ _ >>= _) = _
      rw [outcome_bind, h]
      show Except.ok _ = _
      rw [List.length_map]
    · rw [decide_eq_true_eq, one_lt_length_iff hnodup]
      simp only [hnames]

/-- Two files match a pattern, and the directory beside them does not. -/
theorem pattern_finds_files_beside :
    let t : Tree := ⟨[(["game"], .directory), (["game", "Data"], .directory),
      (["game", "Game.exe"], .file "g".toUTF8), (["game", "Gate.ini"], .file "".toUTF8)]⟩
    let i : Installation := { directories := ⟨"/game/Data", "/game"⟩, format := none }
    let text := "../Ga.*"
    let paths := ["/game/Game.exe", "/game/Gate.ini"]
    t.WellFormed ∧
      i.inspect t.answer none (matchingPaths i.directories text) = .ok paths ∧
      (∀ name ∈ t.names (patternDirectory i.directories text), Accepts text name →
        t.isFile (child (patternDirectory i.directories text) name) = true) ∧
      isPattern text = true ∧
      (∀ path ∈ paths, i.inspect t.answer none (Inspection.ask (.isFile path)) = .ok true) ∧
      i.inspect t.answer none ((Call.file text).holds i.directories none) = .ok true ∧
      i.inspect t.answer none ((Call.many text).holds i.directories none) = .ok true := by
  intro t i text paths
  have ht : t.WellFormed := ⟨by decide +kernel, by decide +kernel⟩
  have hdirectory : patternDirectory i.directories text = "/game" := by decide +kernel
  have hgame : t.find "/game" = .ok (["game"], .directory) :=
    Tree.find_of_walk ["game"] (by decide +kernel) rfl
  have hexe : t.find "/game/Game.exe" = .ok (["game", "Game.exe"], .file "g".toUTF8) :=
    Tree.find_of_walk ["game", "Game.exe"] (by decide +kernel) rfl
  have hini : t.find "/game/Gate.ini" = .ok (["game", "Gate.ini"], .file "".toUTF8) :=
    Tree.find_of_walk ["game", "Gate.ini"] (by decide +kernel) rfl
  have hnames : t.namesAt ["game"] = ["Data", "Game.exe", "Gate.ini"] := by decide +kernel
  have hsorted : ["Data", "Game.exe", "Gate.ini"].mergeSort Text.unitsLe =
      ["Data", "Game.exe", "Gate.ini"] := List.mergeSort_of_pairwise (by decide +kernel)
  obtain ⟨pattern, hpattern, haccepts⟩ : ∃ pattern,
      NamePattern.compile (split text).2 = .ok pattern ∧
        (["Data", "Game.exe", "Gate.ini"].filter pattern.accepts == ["Game.exe", "Gate.ini"]) =
          true :=
    NamePattern.exists_compile (by decide +kernel)
  rw [beq_iff_eq] at haccepts
  have h : i.inspect t.answer none (matchingPaths i.directories text) = .ok paths := by
    rw [found_from_game "" "/game" (by decide +kernel) (by decide +kernel) hpattern hgame, hnames,
      hsorted, haccepts]
    decide +kernel
  have hisFile : ∀ name ∈ ["Game.exe", "Gate.ini"], t.isFile (child "/game" name) = true := by
    have hchild : child "/game" "Game.exe" = "/game/Game.exe" ∧
        child "/game" "Gate.ini" = "/game/Gate.ini" := by decide +kernel
    intro name hname
    rcases List.mem_pair.1 hname with rfl | rfl
    · rw [hchild.1, Tree.isFile, hexe]
    · rw [hchild.2, Tree.isFile, hini]
  have hmatching (name : String) : name ∈ ["Game.exe", "Gate.ini"] ↔
      name ∈ t.names (patternDirectory i.directories text) ∧ Accepts text name := by
    rw [hdirectory, Tree.names_of_find hgame, hnames, accepts_iff hpattern, ← List.mem_filter,
      haccepts]
  have hfiles : ∀ name ∈ t.names (patternDirectory i.directories text), Accepts text name →
      t.isFile (child (patternDirectory i.directories text) name) = true := by
    intro name hlisted haccept
    rw [hdirectory]
    exact hisFile name ((hmatching name).2 ⟨hlisted, haccept⟩)
  have hfound (name : String) (hname : name ∈ ["Game.exe", "Gate.ini"]) :
      MatchingFile t i.directories text name := by
    obtain ⟨hlisted, haccept⟩ := (hmatching name).1 hname
    exact ⟨hlisted, haccept, hfiles name hlisted haccept⟩
  have hmarked : isPattern text = true := by decide +kernel
  obtain ⟨hall, hfile, several, hmany, htwo⟩ := pattern_finds_files ht h (.inr hfiles) none
  obtain ⟨any, hany, hone⟩ := hfile hmarked
  refine ⟨ht, h, hfiles, hmarked, hall, ?_, ?_⟩
  · rw [hany, hone.2 ⟨"Game.exe", hfound _ (by decide)⟩]
  · rw [hmany, htwo.2 ⟨"Game.exe", "Gate.ini", by decide, hfound _ (by decide),
      hfound _ (by decide)⟩]

/-- Seen from the root of the game, a directory passes for a file that matches. -/
theorem pattern_finds_directory :
    let t : Tree := ⟨[(["game"], .directory), (["game", "Data"], .directory),
      (["game", "Mods"], .directory)]⟩
    let i : Installation := { directories := ⟨"/game/Data", "/game"⟩, format := none }
    let text := "../Mo.*"
    t.WellFormed ∧
      i.inspect t.answer none (matchingPaths i.directories text) = .ok ["/game/Mods"] ∧
      i.inspect t.answer none (Inspection.ask (.isFile "/game/Mods")) = .ok false ∧
      i.inspect t.answer none ((Call.file text).holds i.directories none) = .ok true ∧
      ¬∃ name, MatchingFile t i.directories text name := by
  intro t i text
  have ht : t.WellFormed := ⟨by decide +kernel, by decide +kernel⟩
  have hdirectory : patternDirectory i.directories text = "/game" := by decide +kernel
  have hgame : t.find "/game" = .ok (["game"], .directory) :=
    Tree.find_of_walk ["game"] (by decide +kernel) rfl
  have hmods : t.find "/game/Mods" = .ok (["game", "Mods"], .directory) :=
    Tree.find_of_walk ["game", "Mods"] (by decide +kernel) rfl
  have hnames : t.namesAt ["game"] = ["Data", "Mods"] := by decide +kernel
  have hsorted : ["Data", "Mods"].mergeSort Text.unitsLe = ["Data", "Mods"] :=
    List.mergeSort_of_pairwise (by decide +kernel)
  obtain ⟨pattern, hpattern, haccepts⟩ : ∃ pattern,
      NamePattern.compile (split text).2 = .ok pattern ∧
        (["Data", "Mods"].filter pattern.accepts == ["Mods"]) = true :=
    NamePattern.exists_compile (by decide +kernel)
  rw [beq_iff_eq] at haccepts
  have h : i.inspect t.answer none (matchingPaths i.directories text) = .ok ["/game/Mods"] := by
    rw [found_from_game "" "/game" (by decide +kernel) (by decide +kernel) hpattern hgame, hnames,
      hsorted, haccepts]
    decide +kernel
  have hfile : t.isFile "/game/Mods" = false := by rw [Tree.isFile, hmods]
  refine ⟨ht, h, ?_, ?_, ?_⟩
  · rw [i.inspect_eq_outcome, outcome_ask, Tree.onDisk_isFile_of_find i none hmods, hfile]
  · rw [i.inspect_eq_outcome] at h ⊢
    show outcome _ none (fileExists _ _) = _
    rw [outcome_fileExists_pattern (by decide +kernel), h]
    rfl
  · rintro ⟨name, hlisted, haccept, hname⟩
    rw [hdirectory, Tree.names_of_find hgame, hnames] at hlisted
    obtain rfl : name = "Mods" :=
      List.mem_singleton.1
        (haccepts ▸ List.mem_filter.2 ⟨hlisted, (accepts_iff hpattern).1 haccept⟩)
    rw [hdirectory, show child "/game" "Mods" = "/game/Mods" by decide +kernel, hfile] at hname
    cases hname

end PluginAudit.Condition
