import Mathlib.Data.List.TakeWhile
import PluginAudit.Proofs.Places

/-!
# Directories and names

A path is cut after its last slash into a directory part and a name. If the name is an ordinary one,
the path leads to the entry of that name in the directory (`resolve_append`), and from the path of
an entry its directory and its name are read off again (`dirname_child`, `basename_child`).
-/

namespace PluginAudit.Path

open Text

/-- A text before a name: empty, or with a slash at its end. -/
def IsDirectoryPart (directory : String) : Prop :=
  directory.toList = [] ∨ ∃ cs, directory.toList = cs ++ ['/']

theorem isSlash_iff {c : Char} : isSlash c = true ↔ c = '/' := by simp [isSlash]

theorem takeWhile_reverse_append {name : List Char} (hn : '/' ∉ name) (rest : List Char) :
    (name.reverse ++ rest).takeWhile (!isSlash ·) =
      name.reverse ++ rest.takeWhile (!isSlash ·) := by
  refine List.takeWhile_append_of_pos fun c hc => ?_
  rw [isSlash_of_not_mem hn c (List.mem_reverse.1 hc)]
  rfl

theorem dropWhile_reverse_append {name : List Char} (hn : '/' ∉ name) (rest : List Char) :
    (name.reverse ++ rest).dropWhile (!isSlash ·) = rest.dropWhile (!isSlash ·) := by
  refine List.dropWhile_append_of_pos fun c hc => ?_
  rw [isSlash_of_not_mem hn c (List.mem_reverse.1 hc)]
  rfl

/-! ## Cutting a path after its last slash -/

/-- A path is cut where a directory part ends and a name begins. -/
theorem split_append {directory name : String} (hd : IsDirectoryPart directory)
    (hn : '/' ∉ name.toList) : split (directory ++ name) = (directory, name) := by
  have hback : (directory ++ name).toList.reverse =
      name.toList.reverse ++ directory.toList.reverse := by
    rw [String.toList_append, List.reverse_append]
  have hend : directory.toList.reverse.takeWhile (!isSlash ·) = [] ∧
      directory.toList.reverse.dropWhile (!isSlash ·) = directory.toList.reverse := by
    rcases hd with hd | ⟨cs, hd⟩
    · rw [hd]
      exact ⟨rfl, rfl⟩
    · rw [hd, List.reverse_append]
      exact ⟨rfl, rfl⟩
  unfold split
  dsimp only
  rw [hback, takeWhile_reverse_append hn, dropWhile_reverse_append hn, hend.1, hend.2,
    List.append_nil, List.reverse_reverse, List.reverse_reverse, String.ofList_toList,
    String.ofList_toList]

/-- The two parts of a path: a directory part, and a name without slashes. -/
theorem split_spec (path : String) :
    IsDirectoryPart (split path).1 ∧ '/' ∉ (split path).2.toList ∧
      (split path).1 ++ (split path).2 = path := by
  unfold split
  dsimp only
  refine ⟨?_, ?_, ?_⟩
  · rw [IsDirectoryPart, String.toList_ofList]
    cases hdrop : path.toList.reverse.dropWhile (!isSlash ·) with
    | nil => exact .inl rfl
    | cons c cs =>
      have hc : (!isSlash c) = false := by
        have := List.head?_dropWhile_not (!isSlash ·) path.toList.reverse
        rw [hdrop] at this
        simpa using this
      rw [Bool.not_eq_false', isSlash_iff] at hc
      exact .inr ⟨cs.reverse, by rw [hc, List.reverse_cons]⟩
  · rw [String.toList_ofList]
    intro hmem
    exact absurd (List.mem_takeWhile_imp (List.mem_reverse.1 hmem)) (by decide)
  · refine String.toList_injective ?_
    rw [String.toList_append, String.toList_ofList, String.toList_ofList, ← List.reverse_append,
      List.takeWhile_append_dropWhile, List.reverse_reverse]

/-! ## The entry of a directory -/

theorem isNormal_resolve (base path : String) : IsNormal (resolve base path) := by
  rw [IsNormal, resolve, resolve, resolveSegments_ofSegments _ isName_of_mem_resolveSegments]

theorem words_isSlash_name {name : List Char} (hn : IsName name) : words isSlash name = [name] := by
  have hw : words isSlash (name ++ []) = name :: words isSlash [] :=
    words_append (isSlash_of_not_mem hn.2.1) hn.1 (by simp)
  rwa [List.append_nil] at hw

theorem segments_append {directory name : String} (hd : IsDirectoryPart directory)
    (hn : IsName name.toList) :
    segments (directory ++ name) = segments directory ++ [name.toList] := by
  rw [segments, segments, String.toList_append]
  rcases hd with hd | ⟨cs, hd⟩
  · rw [hd, List.nil_append, words_isSlash_name hn]
    rfl
  · rw [hd, List.append_assoc, List.singleton_append, words_append_sep rfl, words_append_sep rfl,
      words_isSlash_name hn]
    simp [words, fields]

theorem isAbsolute_append {directory name : String} (hn : '/' ∉ name.toList) :
    isAbsolute (directory ++ name) = isAbsolute directory := by
  rw [isAbsolute, isAbsolute, String.toList_append]
  cases hcs : directory.toList with
  | cons c cs => rfl
  | nil =>
    have hhead : name.toList.head? ≠ some '/' := fun h => hn (List.mem_of_mem_head? h)
    simpa using hhead

theorem normalize_append {ss : List (List Char)} {name : List Char} (hn : IsName name) :
    normalize (ss ++ [name]) = normalize ss ++ [name] := by
  obtain ⟨-, -, hd, hdd⟩ := hn
  rw [normalize, normalize, List.foldl_append, List.foldl_cons, List.foldl_nil, walk, if_neg hd,
    if_neg hdd, List.reverse_cons]

theorem resolveSegments_append (base : String) {directory name : String}
    (hd : IsDirectoryPart directory) (hn : IsName name.toList) :
    resolveSegments base (directory ++ name) = resolveSegments base directory ++ [name.toList] := by
  rw [resolveSegments, resolveSegments, isAbsolute_append hn.2.1, segments_append hd hn]
  split
  · exact normalize_append hn
  · rw [← List.append_assoc]
    exact normalize_append hn

/-- A name leads to the entry of that name in the directory before it. -/
theorem resolve_append (base : String) {directory name : String}
    (hd : IsDirectoryPart directory) (hn : IsName name.toList) :
    resolve base (directory ++ name) = child (resolve base directory) name := by
  have hnames : ∀ p ∈ resolveSegments base directory, IsName p := isName_of_mem_resolveSegments
  have hchild := child_ofSegments hnames name.toList
  rw [String.ofList_toList] at hchild
  rw [resolve, resolve, hchild, resolveSegments_append base hd hn]

/-- A directory seen from itself. -/
theorem resolve_ofSegments_empty {ps : List (List Char)} (hp : ∀ p ∈ ps, IsName p) :
    resolve (ofSegments ps) "" = ofSegments ps := by
  rw [resolve, resolveSegments, if_neg (by decide), segments_ofSegments hp]
  show ofSegments (normalize (ps ++ [])) = _
  rw [List.append_nil, normalize_eq_self hp]

/-- A name alone leads to the entry of that name. -/
theorem resolve_name {ps : List (List Char)} (hp : ∀ p ∈ ps, IsName p) {name : String}
    (hn : IsName name.toList) : resolve (ofSegments ps) name = child (ofSegments ps) name := by
  have hd : IsDirectoryPart "" := .inl rfl
  have h := resolve_append (ofSegments ps) hd hn
  rwa [String.empty_append, resolve_ofSegments_empty hp] at h

/-- An absolute path as the entry of a directory, unless it is the root. -/
theorem exists_child_of_isNormal {path : String} (h : IsNormal path) (hroot : path ≠ "/") :
    ∃ ps name, (∀ p ∈ ps, IsName p) ∧ IsName name ∧
      path = child (ofSegments ps) (String.ofList name) := by
  have hnames : ∀ p ∈ resolveSegments "/" path, IsName p := isName_of_mem_resolveSegments
  have hne : resolveSegments "/" path ≠ [] := by
    intro hnil
    rw [IsNormal, resolve, hnil] at h
    exact hroot h.symm
  have hsplit := List.dropLast_concat_getLast hne
  refine ⟨(resolveSegments "/" path).dropLast, (resolveSegments "/" path).getLast hne,
    fun p hp => hnames p (List.dropLast_subset _ hp), hnames _ (List.getLast_mem hne), ?_⟩
  rw [child_ofSegments fun p hp => hnames p (List.dropLast_subset _ hp), hsplit]
  exact h.symm

/-! ## A path after another -/

theorem segments_join (way path : String) :
    segments (way ++ "/" ++ path) = segments way ++ segments path := by
  have hslash : isSlash '/' = true := rfl
  rw [segments, segments, segments, String.toList_append, String.toList_append, List.append_assoc]
  exact words_append_sep hslash _ _

theorem normalize_normalize_append {ss : List (List Char)} (hs : ∀ s ∈ ss, s ≠ [] ∧ '/' ∉ s)
    (ns : List (List Char)) : normalize (normalize ss ++ ns) = normalize (ss ++ ns) := by
  have hwalk : (normalize ss).foldl walk [] = ss.foldl walk [] := by
    rw [foldl_walk (isName_of_mem_normalize hs), List.append_nil, normalize, List.reverse_reverse]
  calc normalize (normalize ss ++ ns)
      = (ns.foldl walk ((normalize ss).foldl walk [])).reverse := by
        rw [normalize, List.foldl_append]
    _ = normalize (ss ++ ns) := by rw [hwalk, ← List.foldl_append, normalize]

/-- A path that is seen from another place leads where the two lead one after the other. -/
theorem resolve_join (base : String) {way path : String} (hw : isAbsolute way = false)
    (hne : way ≠ "") (hp : isAbsolute path = false) :
    resolve base (way ++ "/" ++ path) = resolve (resolve base way) path := by
  have hjoin : isAbsolute (way ++ "/" ++ path) = false := by
    rw [isAbsolute, String.toList_append, String.toList_append, List.append_assoc]
    rw [isAbsolute] at hw
    cases hcs : way.toList with
    | nil => exact absurd (String.toList_injective hcs) hne
    | cons c cs => rwa [hcs] at hw
  have hs : ∀ s ∈ segments base ++ segments way, s ≠ [] ∧ '/' ∉ s := by
    intro s hs
    rcases List.mem_append.1 hs with hs | hs
    · exact ne_nil_of_mem_segments s hs
    · exact ne_nil_of_mem_segments s hs
  rw [resolve, resolve, resolve, resolveSegments, resolveSegments, hjoin, hp, if_neg (by decide),
    if_neg (by decide), segments_join, segments_ofSegments isName_of_mem_resolveSegments,
    resolveSegments, hw, if_neg (by decide), normalize_normalize_append hs, List.append_assoc]

/-! ## What the path of an entry says -/

section

variable {ps : List (List Char)} {name : List Char}

theorem toList_ofSegments_append (name : List Char) :
    (ofSegments (ps ++ [name])).toList = (ps.flatMap ('/' :: ·) ++ ['/']) ++ name := by
  rw [toList_ofSegments (by simp), List.flatMap_append]
  simp

theorem reverse_append_slash (cs : List Char) : (cs ++ ['/']).reverse = '/' :: cs.reverse := by
  simp

/-- A path with an ordinary name at its end has no slashes to drop there. -/
theorem dropEndSlashes_append (hn : IsName name) (cs : List Char) :
    dropEndSlashes (cs ++ name) = cs ++ name := by
  obtain ⟨front, last, rfl⟩ : ∃ front last, name = front ++ [last] :=
    ⟨_, _, (List.dropLast_concat_getLast hn.1).symm⟩
  have hlast : isSlash last = false := isSlash_of_not_mem hn.2.1 last (by simp)
  rw [dropEndSlashes, ← List.append_assoc, List.reverse_append, List.reverse_singleton,
    List.singleton_append, List.dropWhile_cons_of_neg (by simp [hlast]), List.reverse_cons,
    List.reverse_reverse]

theorem basename_child (hp : ∀ p ∈ ps, IsName p) (hn : IsName name) :
    basename (child (ofSegments ps) (String.ofList name)) = String.ofList name := by
  rw [child_ofSegments hp, basename, toList_ofSegments_append, dropEndSlashes_append hn,
    List.reverse_append, takeWhile_reverse_append hn.2.1, reverse_append_slash,
    List.takeWhile_cons_of_neg (by decide), List.append_nil, List.reverse_reverse]

theorem dirname_child (hp : ∀ p ∈ ps, IsName p) (hn : IsName name) :
    dirname (child (ofSegments ps) (String.ofList name)) = ofSegments ps := by
  have hbefore : (((dropEndSlashes
      (child (ofSegments ps) (String.ofList name)).toList).reverse.dropWhile
        (!isSlash ·)).tail.reverse) = ps.flatMap ('/' :: ·) := by
    rw [child_ofSegments hp, toList_ofSegments_append, dropEndSlashes_append hn,
      List.reverse_append, dropWhile_reverse_append hn.2.1, reverse_append_slash,
      List.dropWhile_cons_of_neg (by decide), List.tail_cons, List.reverse_reverse]
  unfold dirname
  dsimp only
  rw [hbefore]
  cases ps with
  | nil =>
    rw [child_ofSegments hp, isAbsolute_ofSegments]
    rfl
  | cons p ps =>
    obtain ⟨c, cs, hc⟩ := List.exists_cons_of_ne_nil (hp p List.mem_cons_self).1
    rw [hc]
    rfl

end

/-! ## Inside a directory -/

theorem relativeSegments_append (rs ns : List (List Char)) :
    relativeSegments rs (rs ++ ns) = ns := by
  induction rs with
  | nil => cases ns <;> rfl
  | cons r rs ih => rw [List.cons_append, relativeSegments, if_pos rfl, ih]

/-- A place below a directory counts as inside, unless the way to it begins with two dots. -/
theorem isInside_of_append {directory place : String} {ns : List (List Char)}
    (h : resolveSegments "/" place = resolveSegments "/" directory ++ ns) :
    isInside directory place = staysBelow ns := by
  rw [isInside, h, relativeSegments_append]

theorem staysBelow_cons (name : List Char) (ms ns : List (List Char)) :
    staysBelow (name :: ms) = staysBelow (name :: ns) := by
  unfold staysBelow
  split
  · next h =>
    cases h
    rfl
  · next h =>
    split
    · next cs _ h' =>
      cases h'
      exact absurd rfl (h cs ms)
    · rfl

/-- What lies below another directory inside is inside as well. -/
theorem isInside_of_prefix {directory inner place : String} (h : isInside directory inner = true)
    (hne : resolveSegments "/" inner ≠ resolveSegments "/" directory)
    (hplace : resolveSegments "/" inner <+: resolveSegments "/" place) :
    isInside directory place = true := by
  obtain ⟨ms, hms⟩ := prefix_of_staysBelow h
  obtain ⟨ns, hns⟩ := hplace
  cases ms with
  | nil => exact absurd (hms.symm.trans (List.append_nil _)) hne
  | cons m ms =>
    rw [isInside_of_append hms.symm] at h
    rw [← hms, List.append_assoc] at hns
    rw [isInside_of_append hns.symm, List.cons_append, staysBelow_cons m _ ms, h]

/-- A directory lies in itself. -/
theorem isInside_resolve_empty (directory : String) :
    isInside directory (resolve directory "") = true := by
  have hself : resolveSegments directory "" = resolveSegments "/" directory := by
    rw [resolveSegments, resolveSegments]
    show normalize (segments directory ++ []) = _
    rw [List.append_nil]
    split
    · rfl
    · rfl
  have h : resolveSegments "/" (resolve directory "") = resolveSegments "/" directory ++ [] := by
    rw [resolve, resolveSegments_ofSegments "/" isName_of_mem_resolveSegments, hself,
      List.append_nil]
  rw [isInside_of_append h]
  rfl

end PluginAudit.Path
