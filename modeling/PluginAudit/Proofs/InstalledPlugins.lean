import PluginAudit.Proofs.LoadOrders
import PluginAudit.Proofs.OrderedMaps
import PluginAudit.Proofs.TreeWalks

/-!
# Which plugins are installed

An installation lists its plugins at the first question that needs them, and answers all later ones
from that list, whatever becomes of the disk. A `Visit` is a question and the disk as it is then; a
history of visits decides what is known, and so what is replied (`plugins_listed_once`). As long as
the disk refuses to be listed, so are the questions, and the next one tries again.
-/

namespace PluginAudit

namespace Host

open Path Text LoadOrder
open Lookup (Stateless)

/-- A disk lists each entry of a directory once, by an ordinary name. -/
structure Disk.ListsNames (disk : Disk.Fixed) : Prop where
  nodup : ∀ {path names}, disk (.namesIn path) = .ok names → names.Nodup
  isName : ∀ {path names}, disk (.namesIn path) = .ok names → ∀ name ∈ names, IsName name.toList

theorem Tree.WellFormed.listsNames {t : Tree} (ht : t.WellFormed) : Disk.ListsNames t.answer where
  nodup h := Tree.names_of_answer h ▸ Tree.nodup_names ht _
  isName h _ hname := Tree.isName_of_mem_names ht (Tree.names_of_answer h ▸ hname)

namespace Installation

variable (i : Installation)

/-! ## The plugins on a disk -/

def dataPlace : String := resolve i.directories.data ""

/-- The paths of the plugins that are found on a disk. -/
def found (disk : Disk.Fixed) : Except Failure (List String) :=
  Lookup.result disk (i.findFiles "" isPluginName)

/-- Whether a disk has a plugin of that name in the data directory. -/
structure IsInstalled (disk : Disk.Fixed) (name : String) : Prop where
  named : isPluginName name = true
  directory : disk (.kindOf i.dataPlace) = .ok (some .directory)
  listed : ∃ names, disk (.namesIn i.dataPlace) = .ok names ∧ name ∈ names
  isFile : disk (.kindOf (child i.dataPlace name)) = .ok (some .file)

/-- No two installed plugins have names that differ only in case. -/
def CaseDistinct (disk : Disk.Fixed) : Prop :=
  ∀ a b, i.IsInstalled disk a → i.IsInstalled disk b → lowerString a = lowerString b → a = b

/-- The installed plugins in load order. -/
structure IsListing (disk : Disk.Fixed) (names : List String) : Prop where
  nodup : names.Nodup
  mem_iff : ∀ name, name ∈ names ↔ i.IsInstalled disk name
  precedes : names.Pairwise (Precedes (i.loadOrder.getD []))

/-- Whether a plugin is active among those that are listed. -/
def Activates (names : List String) (name : String) : Prop :=
  (∃ n ∈ names, lowerString n = lowerString name) ∧
    ∀ order, i.loadOrder = some order → ∃ e ∈ order, e.active = true ∧ e.Names name

variable {i} {disk : Disk.Fixed}

theorem hasFile_onDisk {known : Option Plugins} {path : String} :
    hasFile (i.onDisk disk known) path = true ↔ disk (.kindOf path) = .ok (some .file) := by
  rw [hasFile, onDisk_isFile, result_isFile]
  cases (disk (.kindOf path) : Except SystemError (Option FileKind)) with
  | error e =>
    constructor
    · intro h
      cases h
    · intro h
      cases h
  | ok kind =>
    show (kind == some FileKind.file) = true ↔ _
    rw [beq_iff_eq]
    exact ⟨congrArg _, Except.ok.inj⟩

/-- What is listed in a directory comes in the order of its units. -/
theorem listed_spec (hlists : Disk.ListsNames disk) {path : String} {names : List String}
    (h : Lookup.result disk (listDirectory path) = .ok names) :
    names.Pairwise (fun a b => units a.toList < units b.toList) ∧
      ∀ name, name ∈ names ↔ disk (.kindOf path) = .ok (some .directory) ∧
        ∃ listed, disk (.namesIn path) = .ok listed ∧ name ∈ listed := by
  rw [result_listDirectory] at h
  obtain ⟨kind, hkind, h⟩ := exists_of_bind_ok h
  replace hkind := ok_of_mapError hkind
  split at h
  · next hdirectory =>
    obtain ⟨listed, hlisted, h⟩ := exists_of_bind_ok h
    replace hlisted := ok_of_mapError hlisted
    cases h
    refine ⟨?_, fun name => ?_⟩
    · have hsorted := List.pairwise_mergeSort unitsLe_trans unitsLe_total listed
      have hnodup : (listed.mergeSort unitsLe).Nodup :=
        (List.mergeSort_perm ..).nodup_iff.2 (hlists.nodup hlisted)
      exact (hsorted.and hnodup).imp fun h => units_lt_of_unitsLe h.1 h.2
    · rw [List.mem_mergeSort, hkind, beq_iff_eq.1 hdirectory]
      refine ⟨fun h => ⟨rfl, listed, hlisted, h⟩, fun ⟨_, names, hnames, h⟩ => ?_⟩
      cases hlisted.symm.trans hnames
      exact h
  · next hdirectory =>
    cases h
    refine ⟨.nil, fun name => ⟨fun h => absurd h List.not_mem_nil, fun ⟨h, _⟩ => ?_⟩⟩
    cases hkind.symm.trans h
    exact absurd rfl hdirectory

/-- The plugins that are found are the installed ones, by the units of their names. -/
theorem exists_names_of_found (hlists : Disk.ListsNames disk) {paths : List String}
    (h : i.found disk = .ok paths) :
    ∃ names : List String, paths = names.map (child i.dataPlace) ∧
      names.Pairwise (fun a b => units a.toList < units b.toList) ∧
      (∀ name ∈ names, IsName name.toList) ∧
      ∀ name, name ∈ names ↔ i.IsInstalled disk name := by
  have hhost : FindsFiles (i.onDisk disk none) i.directories :=
    i.findsFiles_onDisk disk none fun _ _ h => hlists.isName h
  have hfound : i.onDisk disk none (.findFiles "" isPluginName) = .ok paths :=
    ((i.stateless_findFiles "" isPluginName).result_eq none).trans h
  obtain ⟨listed, hlisted, hpaths⟩ := hhost.eq_ok hfound
  have hname := hhost.isName hlisted
  rw [onDisk_listDirectory] at hlisted
  obtain ⟨hunits, hmem⟩ := listed_spec hlists hlisted
  refine ⟨_, hpaths, (hunits.filter _).filter _, fun name h => ?_, fun name => ?_⟩
  · exact hname name (List.mem_of_mem_filter (List.mem_of_mem_filter h))
  · rw [List.mem_filter, List.mem_filter, hmem, hasFile_onDisk]
    exact ⟨fun ⟨⟨⟨hd, hl⟩, hn⟩, hf⟩ => ⟨hn, hd, hl, hf⟩,
      fun ⟨hn, hd, hl, hf⟩ => ⟨⟨⟨hd, hl⟩, hn⟩, hf⟩⟩

/-! ## What is replied from the listed plugins -/

variable (i)

/-- The names of listed plugins, in load order. -/
def namesOf (ps : Plugins) : List String :=
  let names := ps.map fun (_, path) => basename path
  match i.loadOrder with
  | none => names
  | some order => sortByOrder order names

/-- The installed plugins of a disk in load order; none if they cannot be listed. -/
def listing (disk : Disk.Fixed) : List String :=
  match i.found disk with
  | .ok paths => i.namesOf (pluginsAt paths)
  | .error _ => []

variable {i}

/-- The plugins that are found are kept as they are, if their names differ by more than case. -/
theorem pluginsAt_spec (hlists : Disk.ListsNames disk)
    (hcase : i.CaseDistinct disk) {paths : List String} (h : i.found disk = .ok paths) :
    ∃ names : List String, (pluginsAt paths).map (fun (_, path) => basename path) = names ∧
      (pluginsAt paths).keys = names.map lowerString ∧ (names.map lowerString).Nodup ∧
      names.Pairwise (fun a b => units a.toList < units b.toList) ∧
      ∀ name, name ∈ names ↔ i.IsInstalled disk name := by
  obtain ⟨names, rfl, hunits, hname, hmem⟩ := exists_names_of_found hlists h
  have hbase : ∀ name ∈ names, basename (child i.dataPlace name) = name := by
    intro name hn
    have hplace : ∀ p ∈ resolveSegments i.directories.data "", IsName p :=
      isName_of_mem_resolveSegments
    have hchild := basename_child hplace (hname name hn)
    rwa [String.ofList_toList] at hchild
  have hne : names.Nodup := hunits.imp fun {a b} hlt (he : a = b) => List.lt_irrefl _ (he ▸ hlt)
  have hnodup : (names.map lowerString).Nodup :=
    List.Nodup.map_on (fun a ha b hb => hcase a b ((hmem a).1 ha) ((hmem b).1 hb)) hne
  have hpairs : (names.map (child i.dataPlace)).map (fun path =>
      (lowerString (basename path), path)) =
        names.map fun name => (lowerString name, child i.dataPlace name) := by
    rw [List.map_map]
    exact List.map_congr_left fun name hn => by rw [Function.comp, hbase name hn]
  have hkeys : (names.map fun name => (lowerString name, child i.dataPlace name)).map (·.1) =
      names.map lowerString := by
    rw [List.map_map]
    rfl
  have hstored : pluginsAt (names.map (child i.dataPlace)) =
      names.map fun name => (lowerString name, child i.dataPlace name) := by
    rw [pluginsAt, hpairs, Ordered.ofPairs_of_nodup (by rwa [hkeys])]
  refine ⟨names, ?_, ?_, hnodup, hunits, hmem⟩
  · rw [hstored, List.map_map]
    exact (List.map_congr_left hbase).trans (List.map_id _)
  · rw [hstored]
    exact hkeys

theorem isListing_listing (hlists : Disk.ListsNames disk)
    (hcase : i.CaseDistinct disk) (h : (i.found disk).isOk = true) :
    i.IsListing disk (i.listing disk) := by
  cases hfound : i.found disk with
  | error e =>
    rw [hfound] at h
    cases h
  | ok paths =>
    obtain ⟨names, hnames, -, hnodup, hunits, hmem⟩ := pluginsAt_spec hlists hcase hfound
    have hne : names.Nodup := List.Nodup.of_map _ hnodup
    rw [listing, hfound]
    dsimp only
    rw [namesOf, hnames]
    cases horder : i.loadOrder with
    | none =>
      refine ⟨hne, hmem, hunits.imp fun hlt => ?_⟩
      rw [horder]
      exact .unmentioned (fun ⟨_, he, _⟩ => List.not_mem_nil he)
        (fun ⟨_, he, _⟩ => List.not_mem_nil he) hlt
    | some order =>
      have hperm := sortByOrder_perm order names
      refine ⟨hperm.nodup_iff.2 hne, fun name => hperm.mem_iff.trans (hmem name), ?_⟩
      rw [horder]
      exact sortByOrder_precedes order hunits hnodup

/-! ## Histories -/

/-- A question to an installation, and the disk as it is then. -/
structure Occasion where
  disk : Disk.Fixed
  question : Query

variable (i)

/-- What is known of the plugins after some occasions. -/
def knownAfter (past : List Occasion) : Option Plugins :=
  past.foldl (fun known o => (Lookup.hold o.disk known (i.answer o.question)).2) none

/-- What a question is answered with after some occasions. -/
def reply (past : List Occasion) (now : Disk.Fixed) (q : Query) : Answer q :=
  (Lookup.hold now (i.knownAfter past) (i.answer q)).1

/-- Whether plugins are asked about and can be listed. -/
def canList (o : Occasion) : Bool := o.question.isAboutPlugins && (i.found o.disk).isOk

/-- The disk at the first question about plugins that could list them. -/
def firstListing (occasions : List Occasion) : Option Disk.Fixed :=
  (occasions.find? i.canList).map (·.disk)

variable {i}

/-- A question about plugins is answered from the plugins that are known, or else from those that
are on the disk; without them it fails as listing them does. -/
theorem hold_plugins_bind {α : Type} {f : Plugins → Lookup α} (hf : ∀ ps, Stateless disk (f ps))
    (known : Option Plugins) :
    Lookup.hold disk known (i.plugins >>= f) =
      match known, i.found disk with
      | some ps, _ => (Lookup.result disk (f ps), some ps)
      | none, .ok paths => (Lookup.result disk (f (pluginsAt paths)), some (pluginsAt paths))
      | none, .error e => (.error e, none) := by
  rw [Lookup.hold_bind]
  cases known with
  | some ps => exact (hf ps).eq (some ps)
  | none =>
    rw [hold_plugins_none]
    unfold found
    cases Lookup.result disk (i.findFiles "" isPluginName) with
    | ok paths => exact (hf _).eq _
    | error e => rfl

theorem known_answer (known : Option Plugins) (q : Query) :
    (Lookup.hold disk known (i.answer q)).2 =
      if q.isAboutPlugins = true then known.or ((i.found disk).toOption.map pluginsAt)
      else known := by
  by_cases hq : q.isAboutPlugins = true
  · obtain ⟨f, hanswer, hf⟩ : ∃ f : Plugins → Lookup (Value q),
        i.answer q = i.plugins >>= f ∧ ∀ ps, Stateless disk (f ps) := i.exists_answer_eq_bind hq
    rw [if_pos hq, hanswer, hold_plugins_bind hf]
    cases known with
    | some ps => rfl
    | none => cases i.found disk <;> rfl
  · rw [if_neg hq, (i.stateless_answer (Bool.eq_false_iff.2 hq)).eq]

/-- One more occasion counts if there was no listing before. -/
theorem firstListing_concat (past : List Occasion) (o : Occasion) :
    i.firstListing (past ++ [o]) =
      (i.firstListing past).or (if i.canList o = true then some o.disk else none) := by
  rw [firstListing, firstListing, List.find?_append]
  cases past.find? i.canList with
  | some o' => rfl
  | none =>
    rw [Option.none_or, List.find?_singleton]
    split <;> rfl

theorem exists_found_of_canList {o : Occasion} (h : i.canList o = true) :
    ∃ paths, i.found o.disk = .ok paths := by
  have hok := (Bool.and_eq_true_iff.1 h).2
  cases hfound : i.found o.disk with
  | ok paths => exact ⟨paths, rfl⟩
  | error e =>
    rw [hfound] at hok
    cases hok

theorem exists_found_of_firstListing {past : List Occasion} (h : i.firstListing past = some disk) :
    ∃ paths, i.found disk = .ok paths := by
  obtain ⟨o, ho, rfl⟩ := Option.map_eq_some_iff.1 h
  exact exists_found_of_canList (List.find?_some ho)

/-- Where the plugins are asked about and cannot be listed, the disk refuses. -/
theorem exists_error_of_not_canList {o : Occasion} (hq : o.question.isAboutPlugins = true)
    (h : ¬ i.canList o = true) : ∃ e, i.found o.disk = .error e := by
  cases hfound : i.found o.disk with
  | ok paths =>
    refine absurd (Bool.and_eq_true_iff.2 ⟨hq, ?_⟩) h
    rw [hfound]
    rfl
  | error e => exact ⟨e, rfl⟩

/-- What is known are the plugins of the first listing. -/
theorem knownAfter_eq (past : List Occasion) :
    i.knownAfter past =
      (i.firstListing past).bind fun disk => (i.found disk).toOption.map pluginsAt := by
  -- from the last occasion backwards: it matters only if nothing was known before
  induction past using List.reverseRecOn with
  | nil => rfl
  | append_singleton past o ih =>
    have hstep : i.knownAfter (past ++ [o]) =
        (Lookup.hold o.disk (i.knownAfter past) (i.answer o.question)).2 := by
      rw [knownAfter, List.foldl_append]
      rfl
    rw [hstep, known_answer, firstListing_concat, ih]
    cases hfirst : i.firstListing past with
    | some disk =>
      obtain ⟨paths, hpaths⟩ := exists_found_of_firstListing hfirst
      rw [Option.some_or, Option.bind_some, hpaths]
      split <;> rfl
    | none =>
      rw [Option.none_or, Option.bind_none, Option.none_or]
      by_cases hq : o.question.isAboutPlugins = true
      · rw [if_pos hq]
        split
        · rfl
        · next hlist =>
          obtain ⟨e, he⟩ := exists_error_of_not_canList hq hlist
          rw [he]
          rfl
      · have hlist : ¬ i.canList o = true := fun h => hq (Bool.and_eq_true_iff.1 h).1
        rw [if_neg hq, if_neg hlist]
        rfl

/-- A reply that needs only the plugins is that of the first listing. -/
theorem reply_of_firstListing {past : List Occasion} {now : Disk.Fixed} {q : Query}
    {g : Plugins → Value q} (hanswer : i.answer q = i.plugins >>= fun ps => pure (g ps))
    (hfirst : i.firstListing (past ++ [⟨now, q⟩]) = some disk) {paths : List String}
    (hfound : i.found disk = .ok paths) : i.reply past now q = .ok (g (pluginsAt paths)) := by
  rw [reply, hanswer, hold_plugins_bind fun ps => .pure _, knownAfter_eq]
  rw [firstListing_concat] at hfirst
  cases hpast : i.firstListing past with
  | some disk' =>
    rw [hpast, Option.some_or] at hfirst
    cases hfirst
    rw [Option.bind_some, hfound]
    rfl
  | none =>
    rw [hpast, Option.none_or] at hfirst
    split at hfirst
    · cases hfirst
      simp only [Option.bind_none, hfound]
      rfl
    · cases hfirst

/-! ## What is replied -/

/-- Whether a plugin is installed and active, given the listed plugins. -/
def isActiveAmong (i : Installation) (ps : Plugins) (name : String) : Bool :=
  (ps.get? (lowerString name)).isSome && (i.loadOrder.map (activates · name)).getD true

theorem answer_pluginNames :
    i.answer .pluginNames = i.plugins >>= fun ps => pure (i.namesOf ps) := by
  refine bind_congr fun ps => ?_
  rw [namesOf]
  cases i.loadOrder <;> rfl

theorem answer_isPluginActive (name : String) : i.answer (.isPluginActive name) =
    i.plugins >>= fun ps => pure (i.isActiveAmong ps name) := by
  refine bind_congr fun ps => ?_
  rw [isActiveAmong]
  cases ps.get? (lowerString name) with
  | none => rfl
  | some path =>
    rw [Option.isSome_some, Bool.true_and]

/-- What is to be replied about plugins, given the installed ones in load order. -/
def RepliesFrom (i : Installation) (names : List String) : (q : Query) → Answer q → Prop
  | .pluginNames, r => r = .ok names
  | .isPluginActive name, r => ∃ active, r = .ok active ∧ (active = true ↔ i.Activates names name)
  | _, _ => True

theorem activates_iff {order : List Entry} {name : String} :
    activates order name = true ↔ ∃ e ∈ order, e.active = true ∧ e.Names name := by
  rw [activates, List.any_eq_true]
  exact exists_congr fun e => and_congr_right fun _ => by
    rw [Bool.and_eq_true, decide_eq_true_iff, Entry.Names]

/-- The order of the listed plugins does not matter for whether one is active. -/
theorem isActiveAmong_iff {ps : Plugins} {names listed : List String}
    (hkeys : ps.keys = names.map lowerString) (hmem : ∀ n, n ∈ names ↔ n ∈ listed) (name : String) :
    i.isActiveAmong ps name = true ↔ i.Activates listed name := by
  have hinstalled : (ps.get? (lowerString name)).isSome = true ↔
      ∃ n ∈ listed, lowerString n = lowerString name := by
    rw [Ordered.isSome_get?, hkeys, List.mem_map]
    exact exists_congr fun n => and_congr_left fun _ => hmem n
  rw [isActiveAmong, Bool.and_eq_true, hinstalled, Activates]
  refine and_congr_right fun _ => ?_
  cases horder : i.loadOrder with
  | none => exact iff_of_true rfl fun _ h => nomatch h
  | some order =>
    show activates order name = true ↔ _
    rw [activates_iff]
    exact ⟨fun h order' ho => Option.some.inj ho ▸ h, fun h => h order rfl⟩

/-- The replies that follow a listing are those that its plugins give. -/
theorem repliesFrom_listing (hlists : Disk.ListsNames disk)
    (hcase : i.CaseDistinct disk) {past : List Occasion} {now : Disk.Fixed} {q : Query}
    (hfirst : i.firstListing (past ++ [⟨now, q⟩]) = some disk) {paths : List String}
    (hfound : i.found disk = .ok paths) :
    i.RepliesFrom (i.listing disk) q (i.reply past now q) := by
  have hlisting : i.listing disk = i.namesOf (pluginsAt paths) := by rw [listing, hfound]
  cases q with
  | pluginNames =>
    rw [hlisting]
    exact reply_of_firstListing answer_pluginNames hfirst hfound
  | isPluginActive name =>
    refine ⟨_, reply_of_firstListing (answer_isPluginActive name) hfirst hfound, ?_⟩
    obtain ⟨names, -, hkeys, -, -, hmem⟩ := pluginsAt_spec hlists hcase hfound
    have hok : (i.found disk).isOk = true := by
      rw [hfound]
      rfl
    exact isActiveAmong_iff hkeys
      (fun n => (hmem n).trans ((isListing_listing hlists hcase hok).mem_iff n).symm) name
  | _ => trivial

/-- Before there is a listing, a question about the plugins is refused as the disk refuses. -/
theorem reply_of_no_listing {past : List Occasion} {now : Disk.Fixed} {q : Query}
    (hq : q.isAboutPlugins = true) (hfirst : i.firstListing (past ++ [⟨now, q⟩]) = none) :
    ∃ f, i.found now = .error f ∧ i.reply past now q = .error f := by
  rw [firstListing_concat, Option.or_eq_none_iff, ite_eq_right_iff] at hfirst
  obtain ⟨hpast, hnow⟩ := hfirst
  have hlist : ¬ i.canList ⟨now, q⟩ = true := fun h => nomatch hnow h
  obtain ⟨f, hf⟩ := exists_error_of_not_canList hq hlist
  obtain ⟨g, hanswer, hg⟩ : ∃ g : Plugins → Lookup (Value q),
      i.answer q = i.plugins >>= g ∧ ∀ ps, Stateless now (g ps) := i.exists_answer_eq_bind hq
  refine ⟨f, hf, ?_⟩
  rw [reply, hanswer, hold_plugins_bind hg, knownAfter_eq, hpast]
  simp only [Option.bind_none, hf]

/-- Questions about plugins are answered from the listing that was made for the first of them, on
the disk as it was then: the installed plugins in load order, each once. What has become of the disk
since then does not matter. Before any listing succeeded, a question is refused as the disk refuses
to be listed. -/
theorem plugins_listed_once (i : Installation) (past : List Occasion) (now : Disk.Fixed)
    {q : Query} (hq : q.isAboutPlugins = true) :
    (∀ disk, i.firstListing (past ++ [⟨now, q⟩]) = some disk → Disk.ListsNames disk →
      i.CaseDistinct disk →
      i.IsListing disk (i.listing disk) ∧
        i.RepliesFrom (i.listing disk) q (i.reply past now q)) ∧
      (i.firstListing (past ++ [⟨now, q⟩]) = none →
        ∃ f, i.found now = .error f ∧ i.reply past now q = .error f) := by
  refine ⟨fun disk hfirst hlists hcase => ?_, reply_of_no_listing hq⟩
  obtain ⟨paths, hfound⟩ := exists_found_of_firstListing hfirst
  refine ⟨isListing_listing hlists hcase ?_, repliesFrom_listing hlists hcase hfirst hfound⟩
  rw [hfound]
  rfl

theorem plugins_listed_once_removed :
    let t : Tree := ⟨[(["game"], .directory), (["game", "Data"], .directory),
      (["game", "Data", "c.esp"], .file "c".toUTF8), (["game", "Data", "A.esm"], .file "a".toUTF8),
      (["game", "Data", "b.esp"], .file "b".toUTF8)]⟩
    let i : Installation := {
      directories := ⟨"/game/Data", "/game"⟩
      loadOrder := some (LoadOrder.read "c.esp\nb.esp\n*C.ESP")
      format := none }
    let past : List Occasion := [⟨t.answer, .pluginNames⟩]
    let now := (Tree.mk []).answer
    Query.isAboutPlugins .pluginNames = true ∧
      i.firstListing (past ++ [⟨now, .pluginNames⟩]) = some t.answer ∧
      Disk.ListsNames t.answer ∧
      i.CaseDistinct t.answer ∧
      i.IsListing t.answer ["b.esp", "c.esp", "A.esm"] ∧
      i.reply past now .pluginNames = .ok ["b.esp", "c.esp", "A.esm"] := by
  intro t i past now
  have ht : t.WellFormed := ⟨by decide +kernel, by decide +kernel⟩
  have hdata : t.find "/game/Data" = .ok (["game", "Data"], .directory) :=
    Tree.find_of_walk ["game", "Data"] (by decide +kernel) rfl
  have hplace : resolve i.directories.data "" = "/game/Data" := by decide +kernel
  have hnames : t.namesAt ["game", "Data"] = ["c.esp", "A.esm", "b.esp"] := by decide +kernel
  have hfile : ∀ name ∈ t.namesAt ["game", "Data"], ∃ content,
      t.find (child "/game/Data" name) = .ok (["game", "Data", name], .file content) := by
    simp only [hnames, List.forall_mem_cons, List.not_mem_nil, false_implies, implies_true,
      and_true]
    exact ⟨⟨_, Tree.find_of_walk ["game", "Data", "c.esp"] (by decide +kernel) rfl⟩,
      ⟨_, Tree.find_of_walk ["game", "Data", "A.esm"] (by decide +kernel) rfl⟩,
      ⟨_, Tree.find_of_walk ["game", "Data", "b.esp"] (by decide +kernel) rfl⟩⟩
  have hsorted : ["c.esp", "A.esm", "b.esp"].mergeSort unitsLe = ["A.esm", "b.esp", "c.esp"] := by
    have hle : unitsLe "c.esp" "A.esm" = false ∧ unitsLe "A.esm" "b.esp" = true ∧
        unitsLe "c.esp" "b.esp" = false := by decide +kernel
    simp [List.mergeSort, hle]
  have hfound : i.found t.answer =
      .ok ["/game/Data/A.esm", "/game/Data/b.esp", "/game/Data/c.esp"] := by
    have hall : ∀ name ∈ t.namesAt ["game", "Data"],
        (t.find (child "/game/Data" name)).isOk = true ∧
          t.isFile (child "/game/Data" name) = true := by
      intro name hname
      obtain ⟨content, hfind⟩ := hfile name hname
      rw [Tree.isFile, hfind]
      exact ⟨rfl, rfl⟩
    refine (Tree.onDisk_findFiles i none ht (hplace ▸ hdata)
      (hplace ▸ fun name hname => (hall name hname).1) isPluginName).trans ?_
    have hkeep : ["A.esm", "b.esp", "c.esp"].filter isPluginName = ["A.esm", "b.esp", "c.esp"] := by
      decide +kernel
    have hfiles : (["A.esm", "b.esp", "c.esp"].filter fun name =>
        t.isFile (child "/game/Data" name)) = ["A.esm", "b.esp", "c.esp"] :=
      List.filter_eq_self.2 fun name hname =>
        (hall name (by rwa [hnames, ← List.mem_mergeSort, hsorted])).2
    have hpaths : ["A.esm", "b.esp", "c.esp"].map (child "/game/Data") =
        ["/game/Data/A.esm", "/game/Data/b.esp", "/game/Data/c.esp"] := by decide +kernel
    rw [hplace, hnames, hsorted, hkeep, hfiles]
    exact congrArg Except.ok hpaths
  have hfirst : i.firstListing (past ++ [⟨now, .pluginNames⟩]) = some t.answer := by
    have hcan : i.canList ⟨t.answer, .pluginNames⟩ = true := by
      rw [canList, hfound]
      rfl
    rw [firstListing, List.cons_append, List.find?_cons_of_pos hcan]
    rfl
  have hcase : i.CaseDistinct t.answer := by
    have hmem : ∀ name, i.IsInstalled t.answer name → name ∈ ["c.esp", "A.esm", "b.esp"] := by
      intro name h
      obtain ⟨listed, hlisted, hname⟩ := h.listed
      rwa [Tree.names_of_answer hlisted, dataPlace, hplace, Tree.names_of_find hdata, hnames]
        at hname
    have hlower : ∀ a ∈ ["c.esp", "A.esm", "b.esp"], ∀ b ∈ ["c.esp", "A.esm", "b.esp"],
        lowerString a = lowerString b → a = b := by decide +kernel
    exact fun a b ha hb => hlower a (hmem a ha) b (hmem b hb)
  have hlisting : i.listing t.answer = ["b.esp", "c.esp", "A.esm"] := by
    have hlisted : (pluginsAt ["/game/Data/A.esm", "/game/Data/b.esp", "/game/Data/c.esp"]).map
        (fun (_, path) => basename path) = ["A.esm", "b.esp", "c.esp"] := by decide +kernel
    have hranks : rank (LoadOrder.read "c.esp\nb.esp\n*C.ESP") "A.esm" = 3 ∧
        rank (LoadOrder.read "c.esp\nb.esp\n*C.ESP") "b.esp" = 1 ∧
        rank (LoadOrder.read "c.esp\nb.esp\n*C.ESP") "c.esp" = 2 := by decide +kernel
    rw [listing, hfound]
    show sortByOrder _ (List.map _ _) = _
    rw [hlisted]
    simp [sortByOrder, List.mergeSort, hranks]
  obtain ⟨hl, hr⟩ := (plugins_listed_once i past now (q := .pluginNames) rfl).1 t.answer hfirst
    ht.listsNames hcase
  rw [hlisting] at hl hr
  exact ⟨rfl, hfirst, ht.listsNames, hcase, hl, hr⟩

end Installation

end Host

end PluginAudit
