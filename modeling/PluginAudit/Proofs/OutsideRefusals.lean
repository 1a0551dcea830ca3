import PluginAudit.Host.Memory
import PluginAudit.Proofs.MatchingFiles

/-!
# Paths that are refused as outside

A path is refused as leading out of the game or out of the data directory by the one place it is
judged by. Every place outside is refused; what lies inside is not, unless the first name on the way
down to it begins with two dots, which is taken for a way up (`refused_iff_strays`). Such names may
be those of directories like any other (`refused_inside`).
-/

namespace PluginAudit

namespace Path

/-- The first name on the way down from a directory to a place begins with two dots. -/
def BehindDots (directory place : String) : Prop :=
  ∃ name, IsName ('.' :: '.' :: name) ∧
    Reaches (child directory (String.ofList ('.' :: '.' :: name))) place

/-! ## Places below a directory -/

section

variable {rs ps : List (List Char)}

theorem ofSegments_inj (hr : ∀ p ∈ rs, IsName p) (hp : ∀ p ∈ ps, IsName p) :
    ofSegments rs = ofSegments ps ↔ rs = ps := by
  refine ⟨fun h => ?_, fun h => h ▸ rfl⟩
  rw [← segments_ofSegments hr, h, segments_ofSegments hp]

theorem reaches_ofSegments (hr : ∀ p ∈ rs, IsName p) (hp : ∀ p ∈ ps, IsName p) :
    Reaches (ofSegments rs) (ofSegments ps) ↔ rs <+: ps := by
  constructor
  · rintro ⟨names, hnames, hplace⟩
    have hrn : ∀ p ∈ rs ++ names, IsName p := List.forall_mem_append.2 ⟨hr, hnames⟩
    rw [foldl_child hr hnames, ofSegments_inj hp hrn] at hplace
    exact ⟨names, hplace.symm⟩
  · rintro ⟨names, rfl⟩
    have hnames : ∀ n ∈ names, IsName n := (List.forall_mem_append.1 hp).2
    exact ⟨names, hnames, (foldl_child hr hnames).symm⟩

theorem behindDots_ofSegments (hr : ∀ p ∈ rs, IsName p) (hp : ∀ p ∈ ps, IsName p) :
    BehindDots (ofSegments rs) (ofSegments ps) ↔
      ∃ name names, ps = rs ++ ('.' :: '.' :: name) :: names := by
  have hchild {name : List Char} (hn : IsName name) :
      Reaches (child (ofSegments rs) (String.ofList name)) (ofSegments ps) ↔
        rs ++ [name] <+: ps := by
    have hrn : ∀ p ∈ rs ++ [name], IsName p :=
      List.forall_mem_append.2 ⟨hr, List.forall_mem_singleton.2 hn⟩
    rw [child_ofSegments hr, reaches_ofSegments hrn hp]
  constructor
  · rintro ⟨name, hn, hreach⟩
    obtain ⟨names, rfl⟩ := (hchild hn).1 hreach
    exact ⟨name, names, by rw [List.append_assoc, List.singleton_append]⟩
  · rintro ⟨name, names, rfl⟩
    have hn : IsName ('.' :: '.' :: name) :=
      hp _ (List.mem_append_right _ List.mem_cons_self)
    refine ⟨name, hn, (hchild hn).2 ⟨names, ?_⟩⟩
    rw [List.append_assoc, List.singleton_append]

end

theorem staysBelow_eq_false_iff {way : List (List Char)} :
    staysBelow way = false ↔ ∃ name names, way = ('.' :: '.' :: name) :: names := by
  unfold staysBelow
  split
  · next name names => exact ⟨fun _ => ⟨name, names, rfl⟩, fun _ => rfl⟩
  · next hne =>
    refine ⟨fun h => (by cases h), ?_⟩
    rintro ⟨name, names, rfl⟩
    exact absurd rfl (hne name names)

/-- A place counts as inside if it lies in the directory and not behind a name with two dots. -/
theorem isInside_iff {directory place : String} (hd : IsNormal directory) (hp : IsNormal place) :
    isInside directory place = true ↔ Reaches directory place ∧ ¬ BehindDots directory place := by
  have hr : ∀ p ∈ resolveSegments "/" directory, IsName p := isName_of_mem_resolveSegments
  have hs : ∀ p ∈ resolveSegments "/" place, IsName p := isName_of_mem_resolveSegments
  have hplaces : Reaches directory place ∧ ¬ BehindDots directory place ↔
      resolveSegments "/" directory <+: resolveSegments "/" place ∧
        ¬ ∃ name names, resolveSegments "/" place =
          resolveSegments "/" directory ++ ('.' :: '.' :: name) :: names := by
    rw [← reaches_ofSegments hr hs, ← behindDots_ofSegments hr hs, ← resolve, ← resolve, hd, hp]
  rw [hplaces]
  constructor
  · intro h
    obtain ⟨names, hnames⟩ := prefix_of_staysBelow h
    refine ⟨⟨names, hnames⟩, ?_⟩
    rintro ⟨name, below, hbelow⟩
    rw [isInside_of_append hbelow] at h
    cases h
  · rintro ⟨⟨names, hnames⟩, hdots⟩
    rw [isInside_of_append hnames.symm, ← Bool.not_eq_false, staysBelow_eq_false_iff]
    rintro ⟨name, below, rfl⟩
    exact hdots ⟨name, below, hnames.symm⟩

end Path

namespace Condition

open Host Inspection Path

/-- Whether a condition is refused since a path leads outside. -/
def Fault.IsOutside : Fault → Prop
  | .outsideGame _ => True
  | .outsideData _ => True
  | _ => False

/-! ## What a path aims at -/

/-- A root, the way from there to the place by which a path is judged, and how the path is refused
if that is not in the root. -/
structure Aim where
  root : String
  way : String
  refusal : Fault

namespace Aim

/-- Where an aim leads. -/
def place (aim : Aim) : String := resolve aim.root aim.way

/-- The rest of a path, seen from the root of the game. -/
def inGame (dirs : Directories) (rest path : String) : Aim :=
  ⟨dirs.game, rest, .outsideGame path⟩

/-- The directory part of a path, seen from the data directory. -/
def inData (dirs : Directories) (path : String) : Aim :=
  ⟨dirs.data, (split path).1, .outsideData path⟩

/-- What a path that names something aims at: the place itself in the game, but in the data
directory the directory in which the name is looked for. -/
def ofPath (dirs : Directories) (path : String) : Aim :=
  match fromGame? path with
  | some rest => inGame dirs rest path
  | none => inData dirs path

/-- What a path that ends with a pattern aims at: the directory that is searched. -/
def ofPattern (dirs : Directories) (path : String) : Aim :=
  match fromGame? (split path).1 with
  | some rest => inGame dirs rest path
  | none => inData dirs path

/-- Whether an aim is off its root, or behind a name there that begins with two dots. -/
def Strays (aim : Aim) : Prop := ¬ Reaches aim.root aim.place ∨ BehindDots aim.root aim.place

variable {dirs : Directories} {path : String}

theorem ofPath_game {rest : String} (h : fromGame? path = some rest) :
    ofPath dirs path = inGame dirs rest path := by
  rw [ofPath, h]

theorem ofPath_data (h : fromGame? path = none) : ofPath dirs path = inData dirs path := by
  rw [ofPath, h]

theorem ofPattern_game {rest : String} (h : fromGame? (split path).1 = some rest) :
    ofPattern dirs path = inGame dirs rest path := by
  rw [ofPattern, h]

theorem ofPattern_data (h : fromGame? (split path).1 = none) :
    ofPattern dirs path = inData dirs path := by
  rw [ofPattern, h]

theorem isNormal_root_ofPath (hdata : IsNormal dirs.data) (hgame : IsNormal dirs.game) :
    IsNormal (ofPath dirs path).root := by
  unfold ofPath
  split
  · exact hgame
  · exact hdata

theorem isNormal_root_ofPattern (hdata : IsNormal dirs.data) (hgame : IsNormal dirs.game) :
    IsNormal (ofPattern dirs path).root := by
  unfold ofPattern
  split
  · exact hgame
  · exact hdata

end Aim

/-! ## What is refused -/

/-- A search is refused where its aim does not count as inside, and otherwise fails only where the
host fails to answer. -/
structure Guarded (host : Fixed) (aim : Aim) {α : Type} (search : Except Failure α) : Prop where
  refused : isInside aim.root aim.place = false → search = .error (.condition aim.refusal)
  answered : isInside aim.root aim.place = true → ∀ f, search = .error f →
    ∃ q : Query, host q = .error f

section

variable {host : Fixed} {dirs : Directories} {path : String} (s : Option Facts)

/-- An answer that is only worked on fails where the host does. -/
theorem error_of_answer {α : Type} {q : Query} {g : Host.Value q → α} {f : Failure}
    (h : (host q >>= fun a => .ok (g a)) = .error f) : ∃ q : Query, host q = .error f := by
  cases hq : (host q : Except Failure (Host.Value q)) with
  | ok a =>
    rw [hq] at h
    cases h
  | error e =>
    rw [hq] at h
    exact ⟨q, hq.trans (congrArg Except.error (Except.error.inj h))⟩

theorem guarded_inGame (dirs : Directories) (rest path : String) {α : Type}
    {search : String → Except Failure α}
    (hsearch : ∀ place f, search place = .error f → ∃ q : Query, host q = .error f) :
    Guarded host (Aim.inGame dirs rest path)
      ((insideGame dirs rest path).mapError Failure.condition >>= search) := by
  unfold Aim.inGame
  constructor
  · dsimp only [Aim.place]
    intro h
    rw [insideGame, if_neg (Bool.eq_false_iff.1 h)]
    rfl
  · dsimp only [Aim.place]
    intro h f hf
    rw [insideGame, if_pos h] at hf
    exact hsearch _ f hf

theorem guarded_inData (dirs : Directories) (path : String) {α : Type}
    {search : Unit → Except Failure α}
    (hsearch : ∀ f, search () = .error f → ∃ q : Query, host q = .error f) :
    Guarded host (Aim.inData dirs path)
      ((checkInsideData dirs (split path).1 path).mapError Failure.condition >>= search) := by
  unfold Aim.inData
  constructor
  · dsimp only [Aim.place]
    intro h
    rw [checkInsideData, if_neg (Bool.eq_false_iff.1 h)]
    rfl
  · dsimp only [Aim.place]
    intro h f hf
    rw [checkInsideData, if_pos h] at hf
    exact hsearch f hf

theorem guarded_locate :
    Guarded host (Aim.ofPath dirs path) (outcome host s (locate dirs path)) := by
  cases hgame : fromGame? path with
  | some rest =>
    rw [outcome_locate_game s hgame, Aim.ofPath_game hgame]
    exact guarded_inGame dirs rest path fun _ _ h => error_of_answer h
  | none =>
    rw [outcome_locate_data s hgame, Aim.ofPath_data hgame]
    exact guarded_inData dirs path fun _ h => error_of_answer h

theorem guarded_matchingPaths {pattern : NamePattern}
    (hpattern : NamePattern.compile (split path).2 = .ok pattern) :
    Guarded host (Aim.ofPattern dirs path) (outcome host s (matchingPaths dirs path)) := by
  rw [outcome_matchingPaths, hpattern]
  cases hgame : fromGame? (split path).1 with
  | some rest =>
    rw [Aim.ofPattern_game hgame]
    exact guarded_inGame dirs rest path fun _ _ h => error_of_answer h
  | none =>
    rw [Aim.ofPattern_data hgame]
    exact guarded_inData dirs path fun _ h => ⟨_, h⟩

theorem Guarded.error_iff {α : Type} {aim : Aim} {search : Except Failure α}
    (hsearch : Guarded host aim search) (hroot : IsNormal aim.root)
    (hhost : ∀ (q : Query) (fault : Fault), host q = .error (.condition fault) → ¬ fault.IsOutside)
    {fault : Fault} (hfault : fault.IsOutside) :
    search = .error (.condition fault) ↔ fault = aim.refusal ∧ aim.Strays := by
  have hplace : IsNormal aim.place := isNormal_resolve aim.root aim.way
  have hstrays : aim.Strays ↔ isInside aim.root aim.place = false := by
    rw [← Bool.not_eq_true, isInside_iff hroot hplace, Aim.Strays, not_and_or, not_not]
  rw [hstrays]
  constructor
  · intro herror
    cases hinside : isInside aim.root aim.place with
    | true =>
      obtain ⟨q, hq⟩ := hsearch.answered hinside _ herror
      exact absurd hfault (hhost q fault hq)
    | false =>
      rw [hsearch.refused hinside] at herror
      exact ⟨(Failure.condition.inj (Except.error.inj herror)).symm, rfl⟩
  · rintro ⟨rfl, hinside⟩
    exact hsearch.refused hinside

/-- A path is refused as leading outside exactly where what it aims at is off its root or behind a
name right below the root that begins with two dots, and then for that root and in its own name. A
pattern is refused likewise once it is compiled. -/
theorem refused_iff_strays (hdata : IsNormal dirs.data) (hgame : IsNormal dirs.game)
    (hhost : ∀ (q : Query) (fault : Fault), host q = .error (.condition fault) → ¬ fault.IsOutside)
    (path : String) {fault : Fault} (hfault : fault.IsOutside) :
    (outcome host s (locate dirs path) = .error (.condition fault) ↔
      fault = (Aim.ofPath dirs path).refusal ∧ (Aim.ofPath dirs path).Strays) ∧
    ∀ pattern, NamePattern.compile (split path).2 = .ok pattern →
      (outcome host s (matchingPaths dirs path) = .error (.condition fault) ↔
        fault = (Aim.ofPattern dirs path).refusal ∧ (Aim.ofPattern dirs path).Strays) := by
  refine ⟨?_, fun pattern hpattern => ?_⟩
  · exact (guarded_locate s).error_iff (Aim.isNormal_root_ofPath hdata hgame) hhost hfault
  · exact (guarded_matchingPaths s hpattern).error_iff
      (Aim.isNormal_root_ofPattern hdata hgame) hhost hfault

end

/-- Hosts with listed facts refuse no path. -/
theorem not_isOutside_of_listed (h : Memory) (q : Query) (fault : Fault)
    (hq : h.answer q = .error (.condition fault)) : ¬ fault.IsOutside := by
  cases q with
  | isMasterPlugin plugin =>
    change h.isMasterPlugin plugin = _ at hq
    unfold Memory.isMasterPlugin at hq
    split at hq <;> cases hq
  | contentOf place =>
    change h.contentOf place = _ at hq
    unfold Memory.contentOf at hq
    split at hq
    · cases hq
    · split at hq <;> cases hq
  | structureOf content file =>
    change h.structureOf file = _ at hq
    unfold Memory.structureOf at hq
    split at hq
    · cases hq
    · split at hq <;> cases hq
  | _ => cases hq

/-- A path may pass through a name that begins with two dots and lead out all the same. -/
theorem refused_iff_strays_sample :
    let h : Memory := {}
    let path := "meshes/..old/../../../a.esp"
    IsNormal h.directories.data ∧ IsNormal h.directories.game ∧
      Fault.IsOutside (.outsideData path) ∧ (Aim.ofPath h.directories path).Strays ∧
      outcome h.answer none (locate h.directories path) =
        .error (.condition (.outsideData path)) := by
  intro h path
  have hdata : IsNormal h.directories.data := by decide +kernel
  have hgame : IsNormal h.directories.game := by decide +kernel
  have hfault : Fault.IsOutside (.outsideData path) := trivial
  have hpath := (refused_iff_strays none hdata hgame (not_isOutside_of_listed h) path hfault).1
  have hrefused : outcome h.answer none (locate h.directories path) =
      .error (.condition (.outsideData path)) := by decide +kernel
  exact ⟨hdata, hgame, hfault, (hpath.1 hrefused).2, hrefused⟩

/-- What lies below a directory of the data directory whose name begins with two dots is inside, and
is refused nevertheless. -/
theorem refused_inside :
    let h : Memory := { files := [("/game/Data/..saves/a.esp", "x".toUTF8)] }
    let path := "..saves/a.esp"
    let pattern := "..saves/.*\\.esp"
    Reaches h.directories.data (Aim.ofPath h.directories path).place ∧
      Reaches h.directories.data (Aim.ofPattern h.directories pattern).place ∧
      h.findFiles "..saves/" (· == "a.esp") = ["/game/Data/..saves/a.esp"] ∧
      outcome h.answer none (locate h.directories path) =
        .error (.condition (.outsideData path)) ∧
      outcome h.answer none (matchingPaths h.directories pattern) =
        .error (.condition (.outsideData pattern)) := by
  intro h path pattern
  have hpath : Reaches h.directories.data (Aim.ofPath h.directories path).place :=
    ⟨["..saves".toList], by decide +kernel, by decide +kernel⟩
  have hpattern : Reaches h.directories.data (Aim.ofPattern h.directories pattern).place :=
    ⟨["..saves".toList], by decide +kernel, by decide +kernel⟩
  exact ⟨hpath, hpattern, by decide +kernel, by decide +kernel, by decide +kernel⟩

end Condition

end PluginAudit
