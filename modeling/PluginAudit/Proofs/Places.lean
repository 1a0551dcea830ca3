import PluginAudit.Path

/-!
# Places

A place is given by its segments, each of them an ordinary name. `segments` takes apart what
`ofSegments` puts together, `resolve` always gives such a place, and what `isInside` accepts lies in
the directory: it is reached from there by ordinary names alone (`reaches_of_isInside`).
-/

namespace PluginAudit.Path

open Text

/-- A name that leads one step down: not empty, without slashes, neither `.` nor `..`. -/
def IsName (name : List Char) : Prop :=
  name ≠ [] ∧ '/' ∉ name ∧ name ≠ ['.'] ∧ name ≠ ['.', '.']

instance (name : List Char) : Decidable (IsName name) := inferInstanceAs (Decidable (_ ∧ _))

/-- A place is a directory or lies in it: ordinary names lead to it. -/
def Reaches (directory place : String) : Prop :=
  ∃ names : List (List Char), (∀ n ∈ names, IsName n) ∧
    place = (names.map String.ofList).foldl child directory

/-- An absolute path without `.`, `..`, empty segments or a slash at its end. -/
def IsNormal (path : String) : Prop := resolve "/" path = path

instance (path : String) : Decidable (IsNormal path) := inferInstanceAs (Decidable (_ = _))

/-! ## Segments -/

theorem isSlash_of_not_mem {p : List Char} (h : '/' ∉ p) : ∀ c ∈ p, isSlash c = false := by
  intro c hc
  have hne : c ≠ '/' := fun he => h (he ▸ hc)
  simpa [isSlash] using hne

theorem toList_ofSegments {ps : List (List Char)} (h : ps ≠ []) :
    (ofSegments ps).toList = ps.flatMap ('/' :: ·) := by
  unfold ofSegments
  split
  · exact absurd rfl h
  · rw [String.toList_ofList]

theorem fields_flatMap {ps : List (List Char)} (hp : ∀ p ∈ ps, IsName p) {first : List Char}
    (h : '/' ∉ first) : fields isSlash (first ++ ps.flatMap ('/' :: ·)) = first :: ps := by
  induction ps generalizing first with
  | nil =>
    rw [fields_append (isSlash_of_not_mem h) rfl, List.append_nil]
  | cons p ps ih =>
    obtain ⟨-, hn, -⟩ := hp p List.mem_cons_self
    have hf : fields isSlash ((p :: ps).flatMap ('/' :: ·)) = [] :: p :: ps := by
      rw [List.flatMap_cons, List.cons_append, fields_sep rfl,
        ih (fun q hq => hp q (List.mem_cons_of_mem _ hq)) hn]
    rw [fields_append (isSlash_of_not_mem h) hf, List.append_nil]

theorem segments_ofSegments {ps : List (List Char)} (hp : ∀ p ∈ ps, IsName p) :
    segments (ofSegments ps) = ps := by
  cases ps with
  | nil => rfl
  | cons p ps =>
    have hf : fields isSlash ((p :: ps).flatMap ('/' :: ·)) = [] :: p :: ps :=
      fields_flatMap hp (List.not_mem_nil)
    rw [segments, toList_ofSegments (List.cons_ne_nil _ _), words, hf,
      List.filter_cons_of_neg (by simp)]
    refine List.filter_eq_self.2 fun q hq => ?_
    simpa using (hp q hq).1

theorem isAbsolute_ofSegments (ps : List (List Char)) : isAbsolute (ofSegments ps) = true := by
  cases ps with
  | nil => rfl
  | cons p ps => simp [isAbsolute, toList_ofSegments]

/-! ## Walking -/

theorem foldl_walk {ps : List (List Char)} (hp : ∀ p ∈ ps, IsName p) (place : List (List Char)) :
    ps.foldl walk place = ps.reverse ++ place := by
  induction ps generalizing place with
  | nil => rfl
  | cons p ps ih =>
    obtain ⟨-, -, hd, hdd⟩ := hp p List.mem_cons_self
    rw [List.foldl_cons, ih fun q hq => hp q (List.mem_cons_of_mem _ hq), walk, if_neg hd,
      if_neg hdd, List.reverse_cons, List.append_assoc, List.singleton_append]

theorem normalize_eq_self {ps : List (List Char)} (hp : ∀ p ∈ ps, IsName p) :
    normalize ps = ps := by
  rw [normalize, foldl_walk hp, List.append_nil, List.reverse_reverse]

/-- Every step leads from a place with ordinary names to another one. -/
theorem isName_of_mem_walk {place : List (List Char)} (hp : ∀ p ∈ place, IsName p)
    {segment : List Char} (hs : segment ≠ [] ∧ '/' ∉ segment) :
    ∀ p ∈ walk place segment, IsName p := by
  unfold walk
  split
  · exact hp
  · split
    · exact fun p h => hp p (List.mem_of_mem_tail h)
    · next hd hdd =>
      intro p h
      rcases List.mem_cons.1 h with rfl | h
      · exact ⟨hs.1, hs.2, hd, hdd⟩
      · exact hp p h

theorem isName_of_mem_normalize {ss : List (List Char)} (hs : ∀ s ∈ ss, s ≠ [] ∧ '/' ∉ s) :
    ∀ p ∈ normalize ss, IsName p := by
  have hw : ∀ place, (∀ p ∈ place, IsName p) → ∀ p ∈ ss.foldl walk place, IsName p := by
    induction ss with
    | nil => exact fun _ hp => hp
    | cons s ss ih =>
      intro place hp
      exact ih (fun t ht => hs t (List.mem_cons_of_mem _ ht)) _
        (isName_of_mem_walk hp (hs s List.mem_cons_self))
  intro p h
  exact hw [] (by simp) p (List.mem_reverse.1 h)

theorem ne_nil_of_mem_segments {path : String} :
    ∀ s ∈ segments path, s ≠ [] ∧ '/' ∉ s := by
  intro s hs
  obtain ⟨hf, hn⟩ := List.mem_filter.1 hs
  refine ⟨by simpa using hn, fun hm => ?_⟩
  have : isSlash '/' = false := sep_eq_false_of_mem_fields hf hm
  simp [isSlash] at this

theorem isName_of_mem_resolveSegments {base path : String} :
    ∀ p ∈ resolveSegments base path, IsName p := by
  refine isName_of_mem_normalize fun s hs => ?_
  split at hs
  · exact ne_nil_of_mem_segments s hs
  · rcases List.mem_append.1 hs with h | h
    · exact ne_nil_of_mem_segments s h
    · exact ne_nil_of_mem_segments s h

/-- The segments of a place are found again from any directory. -/
theorem resolveSegments_ofSegments (base : String) {ps : List (List Char)}
    (hp : ∀ p ∈ ps, IsName p) : resolveSegments base (ofSegments ps) = ps := by
  rw [resolveSegments, if_pos (isAbsolute_ofSegments ps), segments_ofSegments hp,
    normalize_eq_self hp]

/-! ## Inside a directory -/

theorem prefix_of_staysBelow {rs ps : List (List Char)}
    (h : staysBelow (relativeSegments rs ps) = true) : rs <+: ps := by
  induction rs generalizing ps with
  | nil => exact List.nil_prefix
  | cons r rs ih =>
    cases ps with
    | nil => simp [relativeSegments, staysBelow] at h
    | cons p ps =>
      by_cases hr : r = p
      · subst hr
        rw [relativeSegments, if_pos rfl] at h
        exact List.cons_prefix_cons.2 ⟨rfl, ih h⟩
      · simp [relativeSegments, hr, staysBelow] at h

theorem child_ofSegments {ps : List (List Char)} (hp : ∀ p ∈ ps, IsName p) (name : List Char) :
    child (ofSegments ps) (String.ofList name) = ofSegments (ps ++ [name]) := by
  refine String.toList_injective ?_
  rw [toList_ofSegments (by simp), List.flatMap_append]
  unfold child
  split
  · next h =>
    cases ps with
    | nil => simp
    | cons p ps =>
      have hl := congrArg String.toList h
      rw [toList_ofSegments (List.cons_ne_nil _ _)] at hl
      simp [(hp p List.mem_cons_self).1] at hl
  · next h =>
    cases ps with
    | nil => exact absurd rfl h
    | cons p ps => simp [toList_ofSegments]

theorem foldl_child {ps names : List (List Char)} (hp : ∀ p ∈ ps, IsName p)
    (hn : ∀ n ∈ names, IsName n) :
    (names.map String.ofList).foldl child (ofSegments ps) = ofSegments (ps ++ names) := by
  induction names generalizing ps with
  | nil => simp
  | cons n names ih =>
    have hpn : ∀ p ∈ ps ++ [n], IsName p := by
      intro p h
      rcases List.mem_append.1 h with h | h
      · exact hp p h
      · exact hn p (List.mem_singleton.1 h ▸ List.mem_cons_self)
    rw [List.map_cons, List.foldl_cons, child_ofSegments hp,
      ih hpn fun m hm => hn m (List.mem_cons_of_mem _ hm), List.append_assoc,
      List.singleton_append]

/-- What `isInside` accepts lies in the directory. -/
theorem reaches_of_isInside {directory base path : String} (hd : IsNormal directory)
    (h : isInside directory (resolve base path) = true) :
    Reaches directory (resolve base path) := by
  have hr : ∀ p ∈ resolveSegments "/" directory, IsName p := isName_of_mem_resolveSegments
  have hp : ∀ p ∈ resolveSegments base path, IsName p := isName_of_mem_resolveSegments
  rw [isInside, resolve, resolveSegments_ofSegments "/" hp] at h
  obtain ⟨names, hn⟩ := prefix_of_staysBelow h
  have hnames : ∀ n ∈ names, IsName n := fun n hm => hp n (hn ▸ List.mem_append_right _ hm)
  refine ⟨names, hnames, ?_⟩
  calc resolve base path
      = ofSegments (resolveSegments "/" directory ++ names) := by rw [hn, resolve]
    _ = (names.map String.ofList).foldl child (resolve "/" directory) :=
      (foldl_child hr hnames).symm
    _ = (names.map String.ofList).foldl child directory := by rw [hd]

/-- From a place in a directory, an ordinary name leads to another one. -/
theorem Reaches.child {directory place : String} (h : Reaches directory place) {name : List Char}
    (hn : IsName name) : Reaches directory (child place (String.ofList name)) := by
  obtain ⟨names, hnames, rfl⟩ := h
  refine ⟨names ++ [name], fun n hm => ?_, by simp⟩
  rcases List.mem_append.1 hm with hm | hm
  · exact hnames n hm
  · exact List.mem_singleton.1 hm ▸ hn

end PluginAudit.Path
