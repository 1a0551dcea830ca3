import Mathlib.Data.List.Nodup
import PluginAudit.Host.Tree
import PluginAudit.Proofs.SteadyDisk

/-!
# Ways through a tree

A path with a name at its end is followed by following the directory before the name and then the
name (`follow_append`). So what is found at the path of an entry is listed in its directory
(`mem_names_of_find`), and an installation whose files are those of a tree does not contradict
itself about them (`consistent_onDisk`). Where no links are on the way and no steps up, a path leads
along its names (`find_of_walk`).
-/

namespace PluginAudit.Host.Tree

open Path

variable (t : Tree)

/-- The names in the directory that a path leads to; none if it leads to no directory. -/
def names (path : String) : List String :=
  match t.find path with
  | .ok (place, .directory) => t.namesAt place
  | _ => []

/-- Whether a path leads to a file. -/
def isFile (path : String) : Bool :=
  match t.find path with
  | .ok (_, .file _) => true
  | _ => false

/-- Goes along names from a directory, neither over links nor up. -/
def walk (place : Place) : List String → Option (Place × Entry)
  | [] => some (place, .directory)
  | name :: rest =>
    if name = "." ∨ name = ".." ∨ longestName < name.utf8ByteSize then none
    else match t.entryAt? (place ++ [name]) with
      | some .directory => walk (place ++ [name]) rest
      | some (.file content) => if rest.isEmpty then some (place ++ [name], .file content) else none
      | _ => none

/-- A tree in which every place is reached by ordinary names and has one entry. -/
structure WellFormed : Prop where
  isName : ∀ place ∈ t.entries.map (·.1), ∀ name ∈ place, IsName name.toList
  nodup : (t.entries.map (·.1)).Nodup

variable {t}

/-! ## Following names one after the other -/

theorem follow_dot (links : Nat) (place : Place) (rest : List String) :
    t.follow links place ("." :: rest) = t.follow links place rest := by rw [follow]

theorem follow_up (links : Nat) (place : Place) (rest : List String) :
    t.follow links place (".." :: rest) = t.follow links place.dropLast rest := by rw [follow]

/-- Following a name that is not too long goes by what is there. -/
theorem follow_name {name : String} (hd : name ≠ ".") (hdd : name ≠ "..")
    (hlength : ¬longestName < name.utf8ByteSize) (links : Nat) (place : Place)
    (rest : List String) :
    t.follow links place (name :: rest) =
      match t.entryAt? (place ++ [name]) with
      | none => .error .noEntry
      | some .directory => t.follow links (place ++ [name]) rest
      | some (.file content) =>
        if rest.isEmpty then .ok (place ++ [name], .file content) else .error .notDirectory
      | some (.link target) =>
        match links with
        | 0 => .error .tooManyLinks
        | links + 1 =>
          t.follow links (if isAbsolute target then [] else place) (steps target ++ rest) :=
  (follow.eq_4 t links place name rest hd hdd).trans (if_neg hlength)

/-- Names lead to a directory, from which following goes on, or to nothing that can be gone on
from. -/
theorem follow_append (links : Nat) (place : Place) (before : List String) :
    (∃ there left, t.follow links place before = .ok (there, .directory) ∧
      ∀ more, t.follow links place (before ++ more) = t.follow left there more) ∨
    ∀ more, more ≠ [] → ∃ c, t.follow links place (before ++ more) = .error c := by
  induction links, place, before using follow.induct t with
  | case1 links place => exact .inl ⟨place, links, by rw [follow], fun _ => rfl⟩
  | case2 links place rest ih => simpa only [List.cons_append, follow_dot] using ih
  | case3 links place rest ih => simpa only [List.cons_append, follow_up] using ih
  | case4 links place name rest hd hdd hlength =>
    refine .inr fun more _ => ⟨.nameTooLong, ?_⟩
    rw [List.cons_append, follow, if_pos hlength]
    · exact hd
    · exact hdd
  | case5 links place name rest hd hdd hlength hentry =>
    refine .inr fun more _ => ⟨.noEntry, ?_⟩
    rw [List.cons_append, follow_name hd hdd hlength, hentry]
  | case6 links place name rest hd hdd hlength hentry ih =>
    simpa only [List.cons_append, follow_name hd hdd hlength, hentry] using ih
  | case7 links place name rest hd hdd hlength content hentry hrest =>
    refine .inr fun more hmore => ⟨.notDirectory, ?_⟩
    rw [List.isEmpty_iff.1 hrest, List.cons_append, follow_name hd hdd hlength, hentry]
    simp [hmore]
  | case8 links place name rest hd hdd hlength content hentry hrest =>
    refine .inr fun more _ => ⟨.notDirectory, ?_⟩
    rw [List.cons_append, follow_name hd hdd hlength, hentry]
    simp_all
  | case9 place name rest hd hdd hlength target hentry =>
    refine .inr fun more _ => ⟨.tooManyLinks, ?_⟩
    rw [List.cons_append, follow_name hd hdd hlength, hentry]
  | case10 place name rest hd hdd hlength target hentry links ih =>
    simpa only [List.cons_append, follow_name hd hdd hlength, hentry, ← List.append_assoc,
      dite_eq_ite] using ih

/-- What is found under a name is listed where the name is followed from. -/
theorem mem_namesAt_of_follow {links : Nat} {place : Place} {name : String}
    (hname : IsName name.toList) {r : Place × Entry} (h : t.follow links place [name] = .ok r) :
    name ∈ t.namesAt place := by
  have hd : name ≠ "." := fun hd => hname.2.2.1 (congrArg String.toList hd)
  have hdd : name ≠ ".." := fun hdd => hname.2.2.2 (congrArg String.toList hdd)
  have hentry : ∃ e, t.entryAt? (place ++ [name]) = some e := by
    cases he : t.entryAt? (place ++ [name]) with
    | some e => exact ⟨e, rfl⟩
    | none =>
      rw [follow] at h
      · rw [he] at h
        split at h <;> cases h
      · exact hd
      · exact hdd
  obtain ⟨e, he⟩ := hentry
  rw [entryAt?, if_neg (by simp)] at he
  obtain ⟨before, after, hentries, -⟩ := List.lookup_eq_some_iff.1 he
  exact List.mem_filterMap.2 ⟨(place ++ [name], e), by simp [hentries], by simp⟩

/-- A path is followed by its steps, unless it is empty or too long or has a zero in it. -/
theorem find_of_follow {path : String} (names : List String)
    (hsteps : '\x00' ∉ path.toList ∧ path.isEmpty = false ∧ path.utf8ByteSize < pathLimit ∧
      steps path = names)
    {r : Place × Entry} (h : t.follow mostLinks [] names = .ok r) : t.find path = .ok r := by
  obtain ⟨hzero, hempty, hlength, rfl⟩ := hsteps
  rw [find, if_neg hzero, if_neg (by rw [hempty]; decide), if_neg (Nat.not_le.2 hlength), h]

theorem follow_of_walk {place : Place} {names : List String} {r : Place × Entry} (links : Nat)
    (h : t.walk place names = some r) : t.follow links place names = .ok r := by
  induction names generalizing place with
  | nil => rw [follow, ← Option.some.inj h]
  | cons name rest ih =>
    rw [walk] at h
    split at h
    · cases h
    next hplain =>
      rw [not_or, not_or] at hplain
      rw [follow_name hplain.1 hplain.2.1 hplain.2.2]
      split at h
      · next hentry =>
        rw [hentry]
        exact ih h
      · next hentry =>
        rw [hentry]
        split at h
        · next hrest => exact (if_pos hrest).trans (congrArg _ (Option.some.inj h))
        · cases h
      · cases h

/-- Names gone along are what their path leads to. -/
theorem find_of_walk {path : String} (names : List String)
    (hsteps : '\x00' ∉ path.toList ∧ path.isEmpty = false ∧ path.utf8ByteSize < pathLimit ∧
      steps path = names)
    {r : Place × Entry} (h : t.walk [] names = some r) : t.find path = .ok r :=
  find_of_follow names hsteps (follow_of_walk mostLinks h)

/-! ## Paths of entries -/

theorem steps_root : steps "/" = ["."] := by decide +kernel

/-- The path of an entry is followed like that of the directory and then the name. -/
theorem follow_steps_child {ps : List (List Char)} (hp : ∀ p ∈ ps, IsName p) {name : String}
    (hname : IsName name.toList) (links : Nat) :
    t.follow links [] (steps (child (ofSegments ps) name)) =
      t.follow links [] (steps (ofSegments ps) ++ [name]) := by
  have hsteps {qs : List (List Char)} (hq : ∀ q ∈ qs, IsName q) (hne : qs ≠ []) :
      steps (ofSegments qs) = qs.map String.ofList := by
    have hlast : (ofSegments qs).toList.getLast? ≠ some '/' := by
      obtain ⟨front, last, rfl⟩ : ∃ front last, qs = front ++ [last] :=
        ⟨_, _, (List.dropLast_concat_getLast hne).symm⟩
      obtain ⟨hlast, hslash, -⟩ := hq last (by simp)
      rw [toList_ofSegments_append, List.getLast?_append, List.getLast?_eq_some_getLast hlast]
      exact fun he => hslash (Option.some.inj he ▸ List.getLast_mem hlast)
    rw [steps, segments_ofSegments hq, if_neg (by simpa using hlast)]
  have hchild := child_ofSegments hp name.toList
  rw [String.ofList_toList] at hchild
  have hq : ∀ q ∈ ps ++ [name.toList], IsName q := by
    intro q hq
    rcases List.mem_append.1 hq with hq | hq
    · exact hp q hq
    · exact List.mem_singleton.1 hq ▸ hname
  rw [hchild, hsteps hq (by simp), List.map_append, List.map_singleton, String.ofList_toList]
  cases ps with
  | nil =>
    show _ = t.follow links [] (steps "/" ++ [name])
    rw [steps_root]
    show _ = t.follow links [] ("." :: [name])
    rw [follow_dot]
    rfl
  | cons p ps => rw [hsteps hp (List.cons_ne_nil _ _)]

theorem exists_child_eq (directory name : String) :
    ∃ rest, child directory name = directory ++ rest := by
  unfold child
  split
  · next hroot => exact ⟨name, by rw [hroot]⟩
  · exact ⟨"/" ++ name, String.append_assoc ..⟩

theorem mem_child_of_mem {directory : String} {c : Char} (h : c ∈ directory.toList)
    (name : String) : c ∈ (child directory name).toList := by
  obtain ⟨rest, hrest⟩ := exists_child_eq directory name
  rw [hrest, String.toList_append]
  exact List.mem_append_left _ h

theorem utf8ByteSize_child (directory name : String) :
    directory.utf8ByteSize ≤ (child directory name).utf8ByteSize := by
  obtain ⟨rest, hrest⟩ := exists_child_eq directory name
  rw [hrest, String.utf8ByteSize_append]
  exact Nat.le_add_right _ _

/-- What is found at the path of an entry is listed in its directory. -/
theorem mem_names_of_find {ps : List (List Char)} (hp : ∀ p ∈ ps, IsName p) {name : String}
    (hname : IsName name.toList) {r : Place × Entry}
    (h : t.find (child (ofSegments ps) name) = .ok r) :
    name ∈ t.names (ofSegments ps) := by
  unfold find at h
  split at h
  · cases h
  next hzero =>
  split at h
  · cases h
  split at h
  · cases h
  next hlimit =>
    have hle := utf8ByteSize_child (ofSegments ps) name
    rw [follow_steps_child hp hname] at h
    rcases t.follow_append mostLinks [] (steps (ofSegments ps)) with
      ⟨there, left, hdirectory, hmore⟩ | hnone
    · rw [hmore] at h
      have hempty : (ofSegments ps).isEmpty = false := by
        rw [Bool.eq_false_iff]
        intro hempty
        have habsolute := isAbsolute_ofSegments ps
        rw [String.isEmpty_iff.1 hempty] at habsolute
        cases habsolute
      have hfind := find_of_follow _
        ⟨fun h => hzero (mem_child_of_mem h name), hempty, by omega, rfl⟩ hdirectory
      rw [names, hfind]
      exact mem_namesAt_of_follow hname h
    · obtain ⟨c, hc⟩ := hnone [name] (List.cons_ne_nil _ _)
      rw [hc] at h
      cases h

/-! ## Installations on a tree -/

theorem names_of_find {path : String} {place : Place} (h : t.find path = .ok (place, .directory)) :
    t.names path = t.namesAt place := by rw [names, h]

theorem isName_of_mem_names (ht : t.WellFormed) {path name : String} (h : name ∈ t.names path) :
    IsName name.toList := by
  unfold names at h
  split at h
  · obtain ⟨⟨place, e⟩, hmem, hname⟩ := List.mem_filterMap.1 h
    dsimp only at hname
    split at hname
    · exact ht.isName place (List.mem_map_of_mem hmem) name (List.mem_of_getLast? hname)
    · cases hname
  · exact absurd h List.not_mem_nil

/-- A directory has a name only once. -/
theorem nodup_names (ht : t.WellFormed) (path : String) : (t.names path).Nodup := by
  unfold names
  split
  · next place _ =>
    have hplaces : t.namesAt place = (t.entries.map (·.1)).filterMap fun p =>
        if p.dropLast = place then p.getLast? else none := by
      rw [List.filterMap_map]
      rfl
    rw [hplaces]
    refine List.Nodup.filterMap (fun p q name hp hq => ?_) ht.nodup
    split at hp
    · next hpplace =>
      split at hq
      · next hqplace =>
        rw [← List.dropLast_append_getLast? name hp, ← List.dropLast_append_getLast? name hq,
          hpplace, hqplace]
      · cases hq
    · cases hp
  · exact List.nodup_nil

theorem names_of_answer {path : String} {listed : List String}
    (h : t.answer (.namesIn path) = .ok listed) : listed = t.names path := by
  rw [names]
  cases hfind : t.find path with
  | error c =>
    have hanswer : t.answer (.namesIn path) = .error ⟨c, "scandir", some path⟩ := by
      rw [answer, hfind]
    cases hanswer.symm.trans h
  | ok r =>
    obtain ⟨place, e⟩ := r
    rw [answer, hfind] at h
    cases e with
    | directory => exact (Except.ok.inj h).symm
    | file content => cases h
    | link target => cases h

variable (i : Installation) (known : Option Plugins)

/-- What an installation says of a path where there is something. -/
theorem onDisk_isFile_of_find {path : String} {r : Place × Entry} (h : t.find path = .ok r) :
    i.onDisk t.answer known (.isFile path) = .ok (t.isFile path) := by
  rw [Installation.onDisk_isFile, Installation.result_isFile, answer, isFile, h]
  obtain ⟨place, e⟩ := r
  cases e <;> rfl

/-- There is a file for the installation where there is one in the tree. -/
theorem hasFile_onDisk (path : String) :
    hasFile (i.onDisk t.answer known) path = t.isFile path := by
  cases h : t.find path with
  | ok r => exact hasFile_of_isFile (onDisk_isFile_of_find i known h)
  | error c =>
    rw [hasFile, Installation.onDisk_isFile, Installation.result_isFile, answer, isFile, h]
    cases c <;> rfl

theorem onDisk_listDirectory_of_find {path : String} {place : Place}
    (h : t.find path = .ok (place, .directory)) :
    i.onDisk t.answer known (.listDirectory path) =
      .ok ((t.namesAt place).mergeSort Text.unitsLe) := by
  rw [Installation.onDisk_listDirectory, Installation.result_listDirectory, answer, answer, h]
  rfl

/-- A directory is listed with its names, in order. -/
theorem onDisk_listDirectory_of_ok {path : String} {listed : List String}
    (h : i.onDisk t.answer known (.listDirectory path) = .ok listed) :
    listed = (t.names path).mergeSort Text.unitsLe := by
  rw [Installation.onDisk_listDirectory, Installation.result_listDirectory, answer, answer] at h
  rw [names]
  cases hfind : t.find path with
  | error c =>
    rw [hfind] at h
    cases c <;> cases h <;> exact List.mergeSort_nil.symm
  | ok r =>
    obtain ⟨place, e⟩ := r
    rw [hfind] at h
    cases e with
    | file content =>
      cases h
      exact List.mergeSort_nil.symm
    | directory => exact (Except.ok.inj h).symm
    | link target => cases h

/-- An installation on a tree does not contradict itself about its files. -/
theorem consistent_onDisk (ht : t.WellFormed) :
    Consistent (i.onDisk t.answer known) i.directories := by
  refine ⟨i.findsFiles_onDisk _ _ fun path listed h name hname => ?_, ?_, fun place => ?_⟩
  · rw [names_of_answer h] at hname
    exact isName_of_mem_names ht hname
  · intro directory listed name hdirectory hlisted hname hfile
    rw [hasFile_onDisk, isFile] at hfile
    rw [onDisk_listDirectory_of_ok i known hlisted, List.mem_mergeSort]
    split at hfile
    · next place content hfind =>
      rw [← hdirectory] at hfind ⊢
      exact mem_names_of_find isName_of_mem_resolveSegments hname hfind
    · cases hfile
  · refine ⟨(t.find place).isOk, i.onDisk_isPresent t.answer known place, ?_⟩
    cases hfind : t.find place with
    | ok r =>
      rw [hasFile_onDisk]
      exact onDisk_isFile_of_find i known hfind
    | error c =>
      rw [hasFile_onDisk, isFile, hfind]
      rfl

/-- In a directory whose entries lead somewhere, the files among them are found. -/
theorem onDisk_findFiles (ht : t.WellFormed) {directory : String} {place : Place}
    (h : t.find (resolve i.directories.data directory) = .ok (place, .directory))
    (hall : ∀ name ∈ t.namesAt place,
      (t.find (child (resolve i.directories.data directory) name)).isOk = true)
    (keep : String → Bool) :
    i.onDisk t.answer known (.findFiles directory keep) =
      .ok (((((t.namesAt place).mergeSort Text.unitsLe).filter keep).filter fun name =>
        t.isFile (child (resolve i.directories.data directory) name)).map
          (child (resolve i.directories.data directory))) := by
  rw [(consistent_onDisk i known ht).findFiles, onDisk_listDirectory_of_find i known h]
  show filesAmong _ _ (List.filter _ _) = _
  rw [filesAmong_eq fun name hname => ?_]
  · simp only [hasFile_onDisk]
    rfl
  · have hfind := hall name (List.mem_mergeSort.1 (List.mem_filter.1 hname).1)
    cases hplace : t.find (child (resolve i.directories.data directory) name) with
    | error c => simp [hplace, Except.isOk, Except.toBool] at hfind
    | ok r => exact ⟨_, onDisk_isFile_of_find i known hplace⟩

/-- In a directory with a single entry, this is found if it is a file that is looked for. -/
theorem onDisk_findFiles_singleton (ht : t.WellFormed) {directory name : String} {place : Place}
    (h : t.find (resolve i.directories.data directory) = .ok (place, .directory))
    (hnames : t.namesAt place = [name]) {r : Place × Entry}
    (hentry : t.find (child (resolve i.directories.data directory) name) = .ok r)
    (keep : String → Bool) :
    i.onDisk t.answer known (.findFiles directory keep) =
      .ok (if t.isFile (child (resolve i.directories.data directory) name) && keep name then
        [child (resolve i.directories.data directory) name] else []) := by
  have hall : ∀ n ∈ t.namesAt place,
      (t.find (child (resolve i.directories.data directory) n)).isOk = true := by
    intro n hn
    rw [hnames] at hn
    rw [List.mem_singleton.1 hn, hentry]
    rfl
  rw [onDisk_findFiles i known ht h hall, hnames, List.mergeSort_singleton, List.filter_filter,
    List.filter_singleton]
  cases t.isFile (child (resolve i.directories.data directory) name) && keep name <;> rfl

end PluginAudit.Host.Tree
