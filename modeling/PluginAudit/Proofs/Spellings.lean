import PluginAudit.Proofs.ContextChecksum
import PluginAudit.Proofs.TreeWalks

/-!
# Two spellings of one location

What lies in the data directory can be spelled from there and from the root of the game. The first
spelling is looked for among the files that a directory lists, the second by whether anything is
there. Both lead to the same place (`resolve_join`), and what is asked of a file there has the same
answer, provided that the name is spelled as it is listed (`spellings_agree`). A directory is found
by the second spelling only (`spellings_differ`).
-/

namespace PluginAudit.Condition

open Host Inspection Path Text

/-- A path that is seen from the data directory and ends with the name of an entry there. -/
structure IsDataPath (dirs : Directories) (path : String) : Prop where
  relative : isAbsolute path = false
  fromData : fromGame? path = none
  isName : IsName (split path).2.toList
  inside : isInside dirs.data (resolve dirs.data (split path).1) = true

/-- A way from the root of the game down to the data directory. -/
structure LeadsToData (dirs : Directories) (way : String) : Prop where
  relative : isAbsolute way = false
  ne_empty : way ≠ ""
  data_eq : dirs.data = resolve dirs.game way
  inside : isInside dirs.game dirs.data = true
  below : dirs.data ≠ resolve "/" dirs.game

/-- A path in the data directory, spelled from the root of the game. -/
def fromRoot (way path : String) : String := "../" ++ (way ++ "/" ++ path)

variable {host : Fixed} {dirs : Directories} {way path : String} {s : Option Facts}

theorem fromGame?_fromRoot : fromGame? (fromRoot way path) = some (way ++ "/" ++ path) :=
  fromGame?_eq_some_iff.2 rfl

/-- The place of a path is the entry of its name in its directory. -/
theorem IsDataPath.resolve_eq (hp : IsDataPath dirs path) :
    resolve dirs.data path = child (resolve dirs.data (split path).1) (split path).2 := by
  obtain ⟨hdirectory, -, hpath⟩ := split_spec path
  rw [← resolve_append dirs.data hdirectory hp.isName, hpath]

/-- From the root of the game, a path leads to the same place, and this is inside of it. -/
theorem resolve_fromRoot (hway : LeadsToData dirs way) (hp : IsDataPath dirs path) :
    resolve dirs.game (way ++ "/" ++ path) = resolve dirs.data path ∧
      isInside dirs.game (resolve dirs.data path) = true := by
  have hdata : resolveSegments "/" dirs.data = resolveSegments dirs.game way := by
    rw [hway.data_eq, resolve, resolveSegments_ofSegments _ isName_of_mem_resolveSegments]
  refine ⟨?_, isInside_of_prefix hway.inside ?_ ?_⟩
  · rw [resolve_join _ hway.relative hway.ne_empty hp.relative, ← hway.data_eq]
  · intro he
    refine hway.below ?_
    rw [hway.data_eq, resolve, resolve, ← hdata, he]
  · have hbelow := prefix_of_staysBelow hp.inside
    rw [resolve, resolveSegments_ofSegments _ isName_of_mem_resolveSegments] at hbelow
    obtain ⟨hdirectory, -, hpath⟩ := split_spec path
    have hsegments := resolveSegments_append dirs.data hdirectory hp.isName
    rw [hpath] at hsegments
    rw [resolve, resolveSegments_ofSegments _ isName_of_mem_resolveSegments, hsegments]
    exact hbelow.trans (List.prefix_append _ _)

/-! ## What is found -/

theorem outcome_locate_found (hp : IsDataPath dirs path) {found : List String}
    (h : host (.findFiles (split path).1 fun file =>
      lowerString file = lowerString (split path).2) = .ok found) :
    outcome host s (locate dirs path) = .ok found.head? := by
  rw [outcome_locate_data s hp.fromData, checkInsideData, if_pos hp.inside]
  show (host (.findFiles (split path).1 _) : Except Failure (List String)) >>= _ = _
  rw [h]
  rfl

/-- A name that is spelled as it is listed is found if it is that of a file. -/
theorem located_in_data (hhost : Consistent host dirs) (hp : IsDataPath dirs path)
    (hcase : ∀ names : List String,
      host (.listDirectory (resolve dirs.data (split path).1)) = .ok names →
        ∀ name ∈ names, lowerString name = lowerString (split path).2 → name = (split path).2)
    {place? : Option String} (h : outcome host s (locate dirs path) = .ok place?) :
    place? = if hasFile host (resolve dirs.data path) = true then some (resolve dirs.data path)
      else none := by
  rw [outcome_locate_data s hp.fromData] at h
  obtain ⟨-, -, h⟩ := exists_of_bind_ok h
  obtain ⟨found, hfound, h⟩ := exists_of_bind_ok h
  obtain ⟨names, hnames, rfl⟩ := hhost.eq_ok hfound
  have hmem (name : String) :
      name ∈ (names.filter fun n => lowerString n = lowerString (split path).2).filter
          (fun n => hasFile host (child (resolve dirs.data (split path).1) n)) ↔
        name = (split path).2 ∧ hasFile host (resolve dirs.data path) = true := by
    rw [List.mem_filter, List.mem_filter, decide_eq_true_eq, hp.resolve_eq]
    constructor
    · rintro ⟨⟨hname, hlower⟩, hfile⟩
      obtain rfl := hcase names hnames name hname hlower
      exact ⟨rfl, hfile⟩
    · rintro ⟨rfl, hfile⟩
      exact ⟨⟨hhost.listed (isNormal_resolve _ _) hnames hp.isName hfile, rfl⟩, hfile⟩
  revert h hmem
  generalize List.filter _ (List.filter _ names) = files
  intro h hmem
  cases Except.ok.inj h
  rw [List.head?_map]
  cases files with
  | nil =>
    rw [if_neg fun hfile => absurd ((hmem _).2 ⟨rfl, hfile⟩) List.not_mem_nil]
    rfl
  | cons name files =>
    obtain ⟨rfl, hfile⟩ := (hmem name).1 List.mem_cons_self
    rw [if_pos hfile, hp.resolve_eq]
    rfl

/-! ## Both spellings -/

/-- Where both spellings are answered, they lead to the same file or to none. -/
theorem answers_agree (hhost : Consistent host dirs) (hway : LeadsToData dirs way)
    (hp : IsDataPath dirs path) (hliteral : isPattern (fromRoot way path) = false)
    (hcase : ∀ names : List String,
      host (.listDirectory (resolve dirs.data (split path).1)) = .ok names →
        ∀ name ∈ names, lowerString name = lowerString (split path).2 → name = (split path).2)
    {place? : Option String} (h : outcome host none (locate dirs path) = .ok place?) :
    outcome host none (fileExists dirs path) =
        outcome host none (fileExists dirs (fromRoot way path)) ∧
      (∀ crc, outcome host none (hasChecksum dirs none path crc) =
        outcome host none (hasChecksum dirs none (fromRoot way path) crc)) ∧
      ((host (.isPresent (resolve dirs.data path)) = .ok true →
          hasFile host (resolve dirs.data path) = true) →
        outcome host none (isReadable dirs path) =
          outcome host none (isReadable dirs (fromRoot way path))) := by
  have hpath : isPattern path = false := by
    rw [Bool.eq_false_iff] at hliteral ⊢
    refine fun hmarks => hliteral ?_
    rw [isPattern, List.any_eq_true] at hmarks ⊢
    obtain ⟨c, hc, hmark⟩ := hmarks
    exact ⟨c, by simp [fromRoot, hc], hmark⟩
  obtain ⟨hplace, hinside⟩ := resolve_fromRoot hway hp
  obtain ⟨there, hthere, hfile⟩ := hhost.present (resolve dirs.data path)
  have hdata := located_in_data hhost hp hcase h
  have hgame := located_in_game none fromGame?_fromRoot (by rw [hplace]; exact hinside)
    (by rw [hplace]; exact hthere)
  rw [hplace] at hgame
  rw [hdata] at h
  by_cases hsame : hasFile host (resolve dirs.data path) = there
  · have hlocate : outcome host none (locate dirs path) =
        outcome host none (locate dirs (fromRoot way path)) := by rw [h, hgame, hsame]
    refine ⟨?_, fun crc => ?_, fun _ => ?_⟩
    · rw [outcome_fileExists_literal none hpath, outcome_fileExists_literal none hliteral, hlocate]
    · rw [outcome_hasChecksum_none, outcome_hasChecksum_none, hlocate]
    · rw [outcome_isReadable, outcome_isReadable, hlocate]
  · -- Something is there that is no file: it is found from the root of the game alone.
    obtain ⟨rfl, hnone⟩ : there = true ∧ hasFile host (resolve dirs.data path) = false := by
      cases there with
      | false => exact absurd hfile hsame
      | true => exact ⟨rfl, Bool.eq_false_iff.2 hsame⟩
    rw [if_pos rfl] at hfile hgame
    rw [hnone] at h hfile
    rw [if_neg (by decide)] at h
    refine ⟨?_, fun crc => ?_, fun hreadable => ?_⟩
    · rw [outcome_fileExists_literal none hpath, outcome_fileExists_literal none hliteral, h, hgame]
      exact hfile.symm
    · rw [outcome_hasChecksum_none, outcome_hasChecksum_none, h, hgame]
      show Except.ok false = checksumAt host _ crc
      rw [checksumAt, hfile]
      rfl
    · exact absurd (hreadable hthere) (by rw [hnone]; decide)

/-! ## On a tree -/

variable {t : Tree} {i : Installation} {known : Option Plugins}

/-- A name in the data directory that is spelled as it is listed leads to the same file as its
spelling from the root of the game. -/
theorem spellings_agree (ht : t.WellFormed) (hway : LeadsToData i.directories way)
    (hp : IsDataPath i.directories path) (hliteral : isPattern (fromRoot way path) = false)
    (hcase : ∀ name ∈ t.names (resolve i.directories.data (split path).1),
      lowerString name = lowerString (split path).2 → name = (split path).2)
    {place? : Option String}
    (h : i.inspect t.answer known (locate i.directories path) = .ok place?) :
    i.inspect t.answer known ((Call.file path).holds i.directories none) =
        i.inspect t.answer known ((Call.file (fromRoot way path)).holds i.directories none) ∧
      (∀ crc, i.inspect t.answer known ((Call.checksum path crc).holds i.directories none) =
        i.inspect t.answer known
          ((Call.checksum (fromRoot way path) crc).holds i.directories none)) ∧
      (((t.find (resolve i.directories.data path)).isOk = true →
          t.isFile (resolve i.directories.data path) = true) →
        i.inspect t.answer known ((Call.readable path).holds i.directories none) =
          i.inspect t.answer known
            ((Call.readable (fromRoot way path)).holds i.directories none)) := by
  have hhost := Tree.consistent_onDisk i known ht
  simp only [i.inspect_eq_outcome] at h ⊢
  obtain ⟨hexists, hchecksum, hreadable⟩ := answers_agree hhost hway hp hliteral
    (fun names hnames name hname => hcase name (by
      rw [Tree.onDisk_listDirectory_of_ok i known hnames, List.mem_mergeSort] at hname
      exact hname)) h
  refine ⟨hexists, hchecksum, fun hfile => hreadable fun hpresent => ?_⟩
  rw [Installation.onDisk_isPresent] at hpresent
  rw [Tree.hasFile_onDisk]
  exact hfile (Except.ok.inj hpresent)

/-- Both spellings of a file below the data directory find it, can read it, and give its
checksum. -/
theorem spellings_agree_nested :
    let t : Tree := ⟨[(["game"], .directory), (["game", "Data"], .directory),
      (["game", "Data", "Sub"], .directory), (["game", "Data", "Sub", "A.esp"], .file "a".toUTF8)]⟩
    let i : Installation := { directories := ⟨"/game/Data", "/game"⟩, format := none }
    let path := "x/../Sub/A.esp"
    let value (call : Call) := i.inspect t.answer none (call.holds i.directories none)
    t.WellFormed ∧ LeadsToData i.directories "Data" ∧ IsDataPath i.directories path ∧
      isPattern (fromRoot "Data" path) = false ∧
      (∀ name ∈ t.names (resolve i.directories.data (split path).1),
        lowerString name = lowerString (split path).2 → name = (split path).2) ∧
      i.inspect t.answer none (locate i.directories path) = .ok (some "/game/Data/Sub/A.esp") ∧
      ((t.find (resolve i.directories.data path)).isOk = true →
        t.isFile (resolve i.directories.data path) = true) ∧
      ∀ spelling ∈ [path, fromRoot "Data" path],
        value (.file spelling) = .ok true ∧ value (.readable spelling) = .ok true ∧
          ∀ crc, value (.checksum spelling crc) = .ok (decide (0xE8B7BE43 = crc)) := by
  intro t i path value
  have ht : t.WellFormed := ⟨by decide +kernel, by decide +kernel⟩
  have hway : LeadsToData i.directories "Data" := by constructor <;> decide +kernel
  have hp : IsDataPath i.directories path := by constructor <;> decide +kernel
  have hliteral : isPattern (fromRoot "Data" path) = false := by decide +kernel
  have hdirectory : resolve i.directories.data (split path).1 = "/game/Data/Sub" := by
    decide +kernel
  have hfind : t.find "/game/Data/Sub" = .ok (["game", "Data", "Sub"], .directory) :=
    Tree.find_of_walk ["game", "Data", "Sub"] (by decide +kernel) rfl
  have hleads : t.find "/game/Data/Sub/A.esp" =
      .ok (["game", "Data", "Sub", "A.esp"], .file "a".toUTF8) :=
    Tree.find_of_walk ["game", "Data", "Sub", "A.esp"] (by decide +kernel) rfl
  have hnames : t.namesAt ["game", "Data", "Sub"] = ["A.esp"] := by decide +kernel
  have hcase : ∀ name ∈ t.names (resolve i.directories.data (split path).1),
      lowerString name = lowerString (split path).2 → name = (split path).2 := by
    rw [hdirectory, Tree.names_of_find hfind, hnames]
    decide +kernel
  have hchild : child "/game/Data/Sub" "A.esp" = "/game/Data/Sub/A.esp" := by decide +kernel
  have hisFile : t.isFile "/game/Data/Sub/A.esp" = true := by rw [Tree.isFile, hleads]
  have hfound : i.onDisk t.answer none (.findFiles (split path).1 fun file =>
      lowerString file = lowerString (split path).2) = .ok ["/game/Data/Sub/A.esp"] := by
    rw [Tree.onDisk_findFiles_singleton i none ht (by rw [hdirectory]; exact hfind) hnames
      (by rw [hdirectory, hchild]; exact hleads), hdirectory, hchild, hisFile]
    exact congrArg Except.ok (if_pos (by decide +kernel))
  have hlocate : i.inspect t.answer none (locate i.directories path) =
      .ok (some "/game/Data/Sub/A.esp") :=
    (i.inspect_eq_outcome _ _).trans (outcome_locate_found hp hfound)
  have hplace : resolve i.directories.data path = "/game/Data/Sub/A.esp" := by decide +kernel
  have hthere : (t.find (resolve i.directories.data path)).isOk = true →
      t.isFile (resolve i.directories.data path) = true := fun _ => by rw [hplace, hisFile]
  have hlocated := (i.inspect_eq_outcome _ _).symm.trans hlocate
  have hfile : value (.file path) = .ok true := by
    have hpath : isPattern path = false := by decide +kernel
    refine (i.inspect_eq_outcome _ _).trans ((outcome_fileExists_literal none hpath).trans ?_)
    rw [hlocated]
    exact (Tree.onDisk_isFile_of_find i none hleads).trans (congrArg Except.ok hisFile)
  have hreadable : value (.readable path) = .ok true := by
    refine (i.inspect_eq_outcome _ _).trans ((outcome_isReadable none).trans ?_)
    rw [hlocated]
    show Except.ok (t.find "/game/Data/Sub/A.esp").isOk = _
    rw [hleads]
    rfl
  have hchecksum (crc : UInt32) : value (.checksum path crc) = .ok (decide (0xE8B7BE43 = crc)) := by
    refine (i.inspect_eq_outcome _ _).trans ((outcome_hasChecksum_none path crc).trans ?_)
    have hcontent : i.onDisk t.answer none (.contentOf "/game/Data/Sub/A.esp") =
        .ok "a".toUTF8 := by
      rw [Installation.onDisk_contentOf, Tree.answer, Tree.content, hleads]
      rfl
    have hcrc : Crc32.checksum "a".toUTF8 = 0xE8B7BE43 := by decide +kernel
    rw [hlocated]
    show checksumAt _ "/game/Data/Sub/A.esp" crc = _
    rw [checksumAt_of_hasFile ((Tree.hasFile_onDisk i none _).trans hisFile), hcontent, ← hcrc]
    rfl
  obtain ⟨hfiles, hchecksums, hreadables⟩ := spellings_agree ht hway hp hliteral hcase hlocate
  refine ⟨ht, hway, hp, hliteral, hcase, hlocate, hthere, fun spelling hspelling => ?_⟩
  rcases List.mem_pair.1 hspelling with rfl | rfl
  · exact ⟨hfile, hreadable, hchecksum⟩
  · exact ⟨hfiles.symm.trans hfile, (hreadables hthere).symm.trans hreadable,
      fun crc => (hchecksums crc).symm.trans (hchecksum crc)⟩

/-- A directory in the data directory is readable only as spelled from the root of the game. -/
theorem spellings_differ :
    let t : Tree := ⟨[(["game"], .directory), (["game", "Data"], .directory),
      (["game", "Data", "meshes"], .directory)]⟩
    let i : Installation := { directories := ⟨"/game/Data", "/game"⟩, format := none }
    let path := "meshes"
    t.WellFormed ∧ LeadsToData i.directories "Data" ∧ IsDataPath i.directories path ∧
      isPattern (fromRoot "Data" path) = false ∧ t.names i.directories.data = [path] ∧
      i.inspect t.answer none ((Call.readable path).holds i.directories none) = .ok false ∧
      i.inspect t.answer none ((Call.readable (fromRoot "Data" path)).holds i.directories none) =
        .ok true := by
  intro t i path
  have ht : t.WellFormed := ⟨by decide +kernel, by decide +kernel⟩
  have hway : LeadsToData i.directories "Data" := by constructor <;> decide +kernel
  have hp : IsDataPath i.directories path := by constructor <;> decide +kernel
  have hdata : t.find "/game/Data" = .ok (["game", "Data"], .directory) :=
    Tree.find_of_walk ["game", "Data"] (by decide +kernel) rfl
  have hmeshes : t.find "/game/Data/meshes" = .ok (["game", "Data", "meshes"], .directory) :=
    Tree.find_of_walk ["game", "Data", "meshes"] (by decide +kernel) rfl
  have hnames : t.namesAt ["game", "Data"] = [path] := by decide +kernel
  have hdirectory : resolve i.directories.data (split path).1 = "/game/Data" := by decide +kernel
  have hplace : resolve i.directories.game ("Data" ++ "/" ++ path) = "/game/Data/meshes" := by
    decide +kernel
  have hchild : child "/game/Data" path = "/game/Data/meshes" := by decide +kernel
  have hnofile : t.isFile "/game/Data/meshes" = false := by rw [Tree.isFile, hmeshes]
  refine ⟨ht, hway, hp, by decide +kernel, (Tree.names_of_find hdata).trans hnames, ?_, ?_⟩
  · have hfound : i.onDisk t.answer none (.findFiles (split path).1 fun file =>
        lowerString file = lowerString (split path).2) = .ok [] := by
      rw [Tree.onDisk_findFiles_singleton i none ht (by rw [hdirectory]; exact hdata) hnames
        (by rw [hdirectory, hchild]; exact hmeshes), hdirectory, hchild, hnofile]
      rfl
    rw [i.inspect_eq_outcome]
    show outcome _ none (isReadable _ _) = _
    rw [outcome_isReadable, outcome_locate_found hp hfound]
    rfl
  · have hthere : i.onDisk t.answer none (.isPresent "/game/Data/meshes") = .ok true := by
      rw [Installation.onDisk_isPresent, Tree.answer, hmeshes]
      rfl
    have hlocate : outcome (i.onDisk t.answer none) none
        (locate i.directories (fromRoot "Data" path)) = .ok (some "/game/Data/meshes") := by
      rw [located_in_game none fromGame?_fromRoot (by rw [hplace]; decide +kernel)
        (by rw [hplace]; exact hthere), hplace]
      rfl
    have hreadable : i.onDisk t.answer none (.isReadable "/game/Data/meshes") = .ok true := by
      show Except.ok (t.find "/game/Data/meshes").isOk = _
      rw [hmeshes]
      rfl
    rw [i.inspect_eq_outcome]
    show outcome _ none (isReadable _ _) = _
    rw [outcome_isReadable, hlocate]
    exact hreadable

end PluginAudit.Condition
