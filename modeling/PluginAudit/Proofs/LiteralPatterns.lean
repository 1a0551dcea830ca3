import PluginAudit.Proofs.EscapedNames
import PluginAudit.Proofs.ListedFiles
import PluginAudit.Proofs.MatchingFiles

/-!
# Names looked for literally and as patterns

A file can be looked for by its name or by a pattern that means the name. In the data directory both
ignore letter case. Seen from the root of the game only patterns do: a name is asked for as it is
spelled. So both have the same answer if the name is spelled as it is listed there
(`literal_eq_escaped`), and may differ otherwise (`literal_ne_escaped`).
-/

namespace PluginAudit.Condition

open Host Inspection Path Text Pattern NamePattern

/-- A name of letters, digits, underscores, hyphens and at least one dot. -/
structure IsFileName (name : String) : Prop where
  isName : IsName name.toList
  plain : ∀ c ∈ name.toList, isPlain c = true ∨ c = '.'
  dotted : '.' ∈ name.toList

/-- Whether neither a directory nor a name in it leads out of the root from which they are seen. -/
def staysInside (dirs : Directories) (directory name : String) : Bool :=
  match fromGame? directory with
  | some rest =>
    isInside dirs.game (resolve dirs.game rest) &&
      isInside dirs.game (resolve dirs.game (rest ++ name))
  | none => isInside dirs.data (resolve dirs.data directory)

variable {host : Fixed} {dirs : Directories} {directory name : String}

/-! ## Marks and slashes -/

theorem isPattern_append (a b : String) : isPattern (a ++ b) = (isPattern a || isPattern b) := by
  rw [isPattern, String.toList_append, List.any_append]
  rfl

namespace IsFileName

theorem isPattern_eq_false (h : IsFileName name) : isPattern name = false := by
  rw [isPattern, List.any_eq_false]
  intro c hc
  rcases h.plain c hc with hplain | rfl
  · intro hmark
    simp only [Bool.or_eq_true, beq_iff_eq] at hmark
    rcases hmark with (((rfl | rfl) | rfl) | rfl) | rfl <;> exact absurd hplain (by decide)
  · decide

theorem isPattern_escape (h : IsFileName name) : isPattern (escape name) = true := by
  rw [isPattern, List.any_eq_true, escape, String.toList_ofList]
  exact ⟨'\\', List.mem_flatMap.2 ⟨'.', h.dotted, by decide⟩, by decide⟩

theorem slash_not_mem_escape (h : IsFileName name) : '/' ∉ (escape name).toList := by
  rw [escape, String.toList_ofList, escapeDots, List.mem_flatMap]
  rintro ⟨c, hc, hslash⟩
  split at hslash
  · exact absurd hslash (by decide)
  · exact h.isName.2.1 (List.mem_singleton.1 hslash ▸ hc)

end IsFileName

/-- A name after a directory part does not change from where that is seen. -/
theorem fromGame?_append (hd : IsDirectoryPart directory) (hn : '/' ∉ name.toList) :
    fromGame? (directory ++ name) = (fromGame? directory).map (· ++ name) := by
  cases hgame : fromGame? directory with
  | some rest =>
    refine fromGame?_eq_some_iff.2 ?_
    rw [fromGame?_eq_some_iff.1 hgame, String.append_assoc]
  | none =>
    rw [Option.map_none, Option.eq_none_iff_forall_ne_some]
    intro rest hrest
    have hlist : directory.toList ++ name.toList = '.' :: '.' :: '/' :: rest.toList := by
      rw [← String.toList_append, fromGame?_eq_some_iff.1 hrest, String.toList_append]
      rfl
    have habsent (cs : List Char) : directory.toList ≠ '.' :: '.' :: '/' :: cs := by
      intro hcs
      refine Option.some_ne_none (String.ofList cs) ((fromGame?_eq_some_iff.2 ?_).symm.trans hgame)
      refine String.toList_injective ?_
      rw [hcs, String.toList_append]
      exact congrArg (['.', '.', '/'] ++ ·) String.toList_ofList.symm
    -- the first slash of the whole is the end of the directory or stands before it
    rcases hd with hd | ⟨cs, hd⟩
    · rw [hd, List.nil_append] at hlist
      exact hn (hlist ▸ by simp)
    · rw [hd] at hlist habsent
      match cs with
      | [] => cases hlist
      | [a] => simp at hlist
      | [a, b] =>
        simp only [List.cons_append, List.nil_append, List.cons.injEq] at hlist
        exact habsent [] (by simp [hlist])
      | a :: b :: c :: cs =>
        simp only [List.cons_append, List.cons.injEq] at hlist
        exact habsent (cs ++ ['/']) (by simp [hlist])

/-- What is left of a directory part seen from the root of the game is one. -/
theorem isDirectoryPart_of_fromGame? (hd : IsDirectoryPart directory) {rest : String}
    (h : fromGame? directory = some rest) : IsDirectoryPart rest := by
  rw [fromGame?_eq_some_iff] at h
  by_cases hrest : rest.toList = []
  · exact .inl hrest
  · have hlist : directory.toList = ("../".toList ++ rest.toList.dropLast) ++
        [rest.toList.getLast hrest] := by
      rw [h, String.toList_append, List.append_assoc, List.dropLast_concat_getLast]
    rcases hd with hd | ⟨cs, hd⟩
    · rw [hd] at hlist
      simp at hlist
    · obtain ⟨-, hlast⟩ := List.append_inj' (hd.symm.trans hlist) rfl
      refine .inr ⟨rest.toList.dropLast, ?_⟩
      rw [hlast, List.dropLast_concat_getLast]

theorem isPattern_literal (hdirectory : isPattern directory = false) (hname : IsFileName name) :
    isPattern (directory ++ name) = false := by
  rw [isPattern_append, hdirectory, hname.isPattern_eq_false]
  rfl

theorem isPattern_escaped (hname : IsFileName name) :
    isPattern (directory ++ escape name) = true := by
  rw [isPattern_append, hname.isPattern_escape, Bool.or_true]

/-! ## Both ways of looking -/

section

variable (hd : IsDirectoryPart directory) (hdirectory : isPattern directory = false)
  (hname : IsFileName name) (s : Option Facts)
include hd hdirectory hname

/-- In the data directory, a name is found literally where it is found as a pattern. -/
theorem literal_in_data (hhost : FindsFiles host dirs)
    (hascii : ∀ names : List String,
      host (.listDirectory (resolve dirs.data directory)) = .ok names →
        ∀ n ∈ names, IsAscii n.toList)
    (hgame : fromGame? directory = none)
    (hinside : isInside dirs.data (resolve dirs.data directory) = true) :
    outcome host s (fileExists dirs (directory ++ name)) =
      outcome host s (fileExists dirs (directory ++ escape name)) := by
  obtain ⟨pattern, hpattern, haccepts⟩ := compile_escape hname.plain
  have hfound : host (.findFiles directory fun file => lowerString file = lowerString name) =
      host (.findFiles directory pattern.accepts) := by
    refine hhost.congr fun names hnames n hn => ?_
    rw [Bool.eq_iff_iff, decide_eq_true_eq, haccepts n (hascii names hnames n hn)]
  have hdata : fromGame? (directory ++ name) = none := by
    rw [fromGame?_append hd hname.isName.2.1, hgame, Option.map_none]
  have hcheck (text : String) : checkInsideData dirs directory text = .ok () := by
    rw [checkInsideData, if_pos hinside]
  rw [outcome_fileExists_literal s (isPattern_literal hdirectory hname),
    outcome_locate_data s hdata, split_append hd hname.isName.2.1, hcheck,
    outcome_fileExists_pattern (isPattern_escaped hname), outcome_matchingPaths,
    split_append hd hname.slash_not_mem_escape, hpattern, hgame]
  show ((host (.findFiles directory _) : Except Failure (List String)) >>= _) >>= _ =
    ((checkInsideData dirs directory _).mapError Failure.condition >>= _) >>= _
  rw [hcheck, hfound]
  show ((host (.findFiles directory pattern.accepts) : Except Failure (List String)) >>= _) >>= _ =
    (host (.findFiles directory pattern.accepts) : Except Failure (List String)) >>= _
  cases hpaths : (host (.findFiles directory pattern.accepts) : Except Failure (List String)) with
  | error f => rfl
  | ok paths =>
    cases paths with
    | nil => rfl
    | cons path paths => exact hhost.isFile_of_mem hpaths List.mem_cons_self

/-- Seen from the root of the game, a name that is spelled as it is listed is found literally where
it is found as a pattern. -/
theorem literal_in_game (hhost : Consistent host dirs) {rest : String}
    (hgame : fromGame? directory = some rest)
    (hinside : isInside dirs.game (resolve dirs.game rest) = true)
    (hpath : isInside dirs.game (resolve dirs.game (rest ++ name)) = true) {names : List String}
    (hnames : host (.listDirectory (resolve dirs.game rest)) = .ok names)
    (hlisted : ∀ n ∈ names, IsAscii n.toList ∧
      hasFile host (child (resolve dirs.game rest) n) = true)
    (hcase : ∀ n ∈ names, lowerString n = lowerString name → n = name) :
    outcome host s (fileExists dirs (directory ++ name)) =
      outcome host s (fileExists dirs (directory ++ escape name)) := by
  obtain ⟨pattern, hpattern, haccepts⟩ := compile_escape hname.plain
  have hliteral : fromGame? (directory ++ name) = some (rest ++ name) := by
    rw [fromGame?_append hd hname.isName.2.1, hgame, Option.map_some]
  have hplace : resolve dirs.game (rest ++ name) = child (resolve dirs.game rest) name :=
    resolve_append dirs.game (isDirectoryPart_of_fromGame? hd hgame) hname.isName
  have hfile : hasFile host (child (resolve dirs.game rest) name) = true ↔
      ∃ n ∈ names, pattern.accepts n = true := by
    constructor
    · intro hfile
      have hmem := hhost.listed (isNormal_resolve _ _) hnames hname.isName hfile
      exact ⟨name, hmem, (haccepts name (hlisted name hmem).1).2 rfl⟩
    · rintro ⟨n, hn, haccept⟩
      obtain ⟨hascii, hfile⟩ := hlisted n hn
      obtain rfl := hcase n hn ((haccepts n hascii).1 haccept)
      exact hfile
  rw [outcome_fileExists_game s hhost (isPattern_literal hdirectory hname) hliteral hpath, hplace,
    outcome_fileExists_pattern (isPattern_escaped hname), outcome_matchingPaths,
    split_append hd hname.slash_not_mem_escape, hpattern, hgame]
  show _ = ((insideGame dirs rest _).mapError Failure.condition >>= _) >>= _
  rw [insideGame, if_pos hinside]
  show _ = ((host (.listDirectory (resolve dirs.game rest)) : Except Failure (List String)) >>= _)
    >>= _
  rw [hnames]
  refine congrArg Except.ok ?_
  rw [Bool.eq_iff_iff, hfile, Bool.not_eq_true', List.isEmpty_map,
    List.isEmpty_eq_false_iff_exists_mem]
  simp only [List.mem_filter]

end

/-- A name has the same answer literally and with its dots escaped, provided that it is spelled as
it is listed where it is seen from the root of the game. -/
theorem literal_eq_escaped (hhost : Consistent host dirs)
    (hlisted : ∀ names : List String,
      host (.listDirectory (directoryAt dirs directory)) = .ok names →
        ∀ n ∈ names, IsAscii n.toList ∧
          hasFile host (child (directoryAt dirs directory) n) = true)
    (hd : IsDirectoryPart directory) (hdirectory : isPattern directory = false)
    (hname : IsFileName name) (hinside : staysInside dirs directory name = true)
    (hcase : ∀ rest, fromGame? directory = some rest →
      ∃ names : List String, host (.listDirectory (resolve dirs.game rest)) = .ok names ∧
        ∀ n ∈ names, lowerString n = lowerString name → n = name)
    (context : Option Package) (s : Option Facts) :
    outcome host s ((Call.file (directory ++ name)).holds dirs context) =
      outcome host s ((Call.file (directory ++ escape name)).holds dirs context) := by
  show outcome host s (fileExists _ _) = outcome host s (fileExists _ _)
  unfold staysInside at hinside
  cases hgame : fromGame? directory with
  | none =>
    rw [hgame] at hinside
    rw [directoryAt, hgame] at hlisted
    exact literal_in_data hd hdirectory hname s hhost.toFindsFiles
      (fun names hnames n hn => (hlisted names hnames n hn).1) hgame hinside
  | some rest =>
    rw [hgame] at hinside
    rw [directoryAt, hgame] at hlisted
    obtain ⟨hdir, hpath⟩ := Bool.and_eq_true_iff.1 hinside
    obtain ⟨names, hnames, hspelled⟩ := hcase rest hgame
    exact literal_in_game hd hdirectory hname s hhost hgame hdir hpath hnames
      (hlisted names hnames) hspelled

theorem literal_eq_escaped_beside :
    let h : Memory := {
      files := [("/game/Game.exe", "g".toUTF8), ("/game/Data/a-1.esp", "a".toUTF8)] }
    Consistent h.answer h.directories ∧
      (∀ names : List String,
        h.answer (.listDirectory (directoryAt h.directories "../")) = .ok names →
          ∀ n ∈ names, IsAscii n.toList ∧
            hasFile h.answer (child (directoryAt h.directories "../") n) = true) ∧
      IsDirectoryPart "../" ∧ isPattern "../" = false ∧ IsFileName "Game.exe" ∧
      staysInside h.directories "../" "Game.exe" = true ∧
      (∀ rest, fromGame? "../" = some rest →
        ∃ names : List String, h.answer (.listDirectory (resolve h.directories.game rest)) =
            .ok names ∧
          ∀ n ∈ names, lowerString n = lowerString "Game.exe" → n = "Game.exe") ∧
      outcome h.answer none ((Call.file ("../" ++ "Game.exe")).holds h.directories none) =
        outcome h.answer none
          ((Call.file ("../" ++ escape "Game.exe")).holds h.directories none) := by
  intro h
  have hkeys : ∀ key ∈ h.files.keys, IsNormal key ∧ key ≠ "/" := by decide +kernel
  have hhost := Memory.consistent hkeys
  have hlisted : ∀ names : List String,
      h.answer (.listDirectory (directoryAt h.directories "../")) = .ok names →
        ∀ n ∈ names, IsAscii n.toList ∧
          hasFile h.answer (child (directoryAt h.directories "../") n) = true := by
    intro names hnames n hn
    cases Except.ok.inj hnames
    exact ⟨Memory.isAscii_of_mem_namesIn (by decide +kernel) hn,
      Memory.hasFile_of_mem_namesIn hkeys hn⟩
  have hd : IsDirectoryPart "../" := .inr ⟨['.', '.'], by decide +kernel⟩
  have hname : IsFileName "Game.exe" :=
    ⟨by decide +kernel, List.all_iff_forall_prop.1 (by decide +kernel), by decide +kernel⟩
  have hcase : ∀ rest, fromGame? "../" = some rest →
      ∃ names : List String, h.answer (.listDirectory (resolve h.directories.game rest)) =
          .ok names ∧
        ∀ n ∈ names, lowerString n = lowerString "Game.exe" → n = "Game.exe" := by
    intro rest hrest
    cases hrest.symm.trans (show fromGame? "../" = some "" by decide +kernel)
    exact ⟨_, rfl, by decide +kernel⟩
  exact ⟨hhost, hlisted, hd, by decide +kernel, hname, by decide +kernel, hcase,
    literal_eq_escaped hhost hlisted hd (by decide +kernel) hname (by decide +kernel) hcase none
      none⟩

/-- Seen from the root of the game, a name in another case is found only as a pattern. -/
theorem literal_ne_escaped :
    let h : Memory := { files := [("/game/Game.exe", "g".toUTF8)] }
    Consistent h.answer h.directories ∧
      (∀ (place : String) (names : List String), h.answer (.listDirectory place) = .ok names →
        ∀ n ∈ names, IsAscii n.toList ∧ hasFile h.answer (child place n) = true) ∧
      IsDirectoryPart "../" ∧ isPattern "../" = false ∧ IsFileName "game.exe" ∧
      staysInside h.directories "../" "game.exe" = true ∧
      outcome h.answer none ((Call.file ("../" ++ "game.exe")).holds h.directories none) =
        .ok false ∧
      outcome h.answer none ((Call.file ("../" ++ escape "game.exe")).holds h.directories none) =
        .ok true := by
  intro h
  have hkeys : ∀ key ∈ h.files.keys, IsNormal key ∧ key ≠ "/" := by decide +kernel
  refine ⟨Memory.consistent hkeys, fun place names hnames n hn => ?_,
    .inr ⟨['.', '.'], by decide +kernel⟩, by decide +kernel,
    ⟨by decide +kernel, List.all_iff_forall_prop.1 (by decide +kernel), by decide +kernel⟩,
    by decide +kernel, by decide +kernel, by decide +kernel⟩
  cases Except.ok.inj hnames
  exact ⟨Memory.isAscii_of_mem_namesIn (by decide +kernel) hn,
    Memory.hasFile_of_mem_namesIn hkeys hn⟩

end PluginAudit.Condition
