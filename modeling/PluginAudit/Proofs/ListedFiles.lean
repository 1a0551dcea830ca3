import PluginAudit.Host.Memory
import PluginAudit.Proofs.FileAnswers
import PluginAudit.Proofs.LowerCase

/-!
# Hosts with listed facts are consistent

A host whose files are given as a list does not contradict itself about them, provided that the
files are given by absolute paths without detours (`Memory.consistent`).
-/

namespace PluginAudit.Host.Memory

open Path

variable {h : Memory}

theorem isSome_get?_iff (h : Memory) (path : String) :
    hasFile h.answer path = true ↔ path ∈ h.files.keys :=
  h.files.isSome_get? path

/-- The names in a directory are those of the files right in it. -/
theorem mem_namesIn_iff (hkeys : ∀ key ∈ h.files.keys, IsNormal key ∧ key ≠ "/")
    {ps : List (List Char)} (hp : ∀ p ∈ ps, IsName p) {name : String} :
    name ∈ h.namesIn (ofSegments ps) ↔
      IsName name.toList ∧ child (ofSegments ps) name ∈ h.files.keys := by
  constructor
  · intro hname
    obtain ⟨key, hkey, rfl⟩ := List.mem_map.1 hname
    obtain ⟨hkey, hdir⟩ := List.mem_filter.1 hkey
    obtain ⟨hnormal, hroot⟩ := hkeys key hkey
    obtain ⟨qs, n, hq, hn, rfl⟩ := exists_child_of_isNormal hnormal hroot
    rw [decide_eq_true_eq, dirname_child hq hn] at hdir
    rw [basename_child hq hn, String.toList_ofList, ← hdir]
    exact ⟨hn, hkey⟩
  · rintro ⟨hn, hkey⟩
    have hdir := dirname_child hp hn
    have hbase := basename_child hp hn
    rw [String.ofList_toList] at hdir hbase
    exact List.mem_map.2 ⟨_, List.mem_filter.2 ⟨hkey, decide_eq_true hdir⟩, hbase⟩

/-- A directory in which there are files has an absolute path without detours. -/
theorem exists_ofSegments_of_mem_namesIn
    (hkeys : ∀ key ∈ h.files.keys, IsNormal key ∧ key ≠ "/") {directory name : String}
    (hname : name ∈ h.namesIn directory) :
    ∃ ps, (∀ p ∈ ps, IsName p) ∧ directory = ofSegments ps := by
  obtain ⟨key, hkey, rfl⟩ := List.mem_map.1 hname
  obtain ⟨hkey, hdir⟩ := List.mem_filter.1 hkey
  obtain ⟨hnormal, hroot⟩ := hkeys key hkey
  obtain ⟨qs, n, hq, hn, rfl⟩ := exists_child_of_isNormal hnormal hroot
  rw [decide_eq_true_eq, dirname_child hq hn] at hdir
  exact ⟨qs, hq, hdir.symm⟩

/-- The names in a directory are those of files. -/
theorem hasFile_of_mem_namesIn (hkeys : ∀ key ∈ h.files.keys, IsNormal key ∧ key ≠ "/")
    {directory name : String} (hname : name ∈ h.namesIn directory) :
    hasFile h.answer (child directory name) = true := by
  obtain ⟨ps, hp, rfl⟩ := exists_ofSegments_of_mem_namesIn hkeys hname
  exact (h.isSome_get?_iff _).2 ((mem_namesIn_iff hkeys hp).1 hname).2

theorem isAscii_of_mem_namesIn
    (hkeys : ∀ key ∈ h.files.keys, Text.IsAscii (basename key).toList) {directory name : String}
    (hname : name ∈ h.namesIn directory) : Text.IsAscii name.toList := by
  obtain ⟨key, hkey, rfl⟩ := List.mem_map.1 hname
  exact hkeys key (List.mem_filter.1 hkey).1

theorem findsFiles (hkeys : ∀ key ∈ h.files.keys, IsNormal key ∧ key ≠ "/") :
    FindsFiles h.answer h.directories := by
  constructor
  · intro directory keep
    have hp : ∀ p ∈ resolveSegments h.directories.data directory, IsName p :=
      isName_of_mem_resolveSegments
    have hchild : ∀ name ∈ (h.namesIn (resolve h.directories.data directory)).filter keep,
        child (resolve h.directories.data directory) name ∈ h.files.keys ∧
          resolve (resolve h.directories.data directory) name =
            child (resolve h.directories.data directory) name := by
      intro name hname
      obtain ⟨hn, hkey⟩ := (mem_namesIn_iff hkeys hp).1 (List.mem_filter.1 hname).1
      exact ⟨hkey, resolve_name hp hn⟩
    show Except.ok (h.findFiles directory keep) = filesAmong h.answer _ _
    rw [filesAmong_eq fun name _ => ⟨_, rfl⟩, Memory.findFiles,
      List.map_congr_left fun name hname => (hchild name hname).2,
      List.filter_eq_self.2 fun name hname => (h.isSome_get?_iff _).2 (hchild name hname).1]
  · intro place names hnames name hname
    cases Except.ok.inj hnames
    obtain ⟨ps, hp, rfl⟩ := exists_ofSegments_of_mem_namesIn hkeys hname
    exact ((mem_namesIn_iff hkeys hp).1 hname).1

theorem consistent (hkeys : ∀ key ∈ h.files.keys, IsNormal key ∧ key ≠ "/") :
    Consistent h.answer h.directories := by
  refine ⟨findsFiles hkeys, ?_, ?_⟩
  · intro directory names name hdir hnames hname hfile
    cases Except.ok.inj hnames
    rw [← hdir] at hfile ⊢
    exact (mem_namesIn_iff hkeys isName_of_mem_resolveSegments).2
      ⟨hname, (h.isSome_get?_iff _).1 hfile⟩
  · intro place
    refine ⟨h.isPresent place, rfl, ?_⟩
    split
    next => rfl
    next habsent =>
      rw [Bool.eq_false_iff]
      intro hfile
      refine habsent (List.any_eq_true.2 ⟨place, (h.isSome_get?_iff place).1 hfile, ?_⟩)
      simp

end PluginAudit.Host.Memory
