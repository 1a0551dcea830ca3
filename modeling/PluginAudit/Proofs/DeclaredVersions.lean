import PluginAudit.Proofs.InstalledPlugins

/-!
# Which declared version counts

A plugin may be declared several times, in one spelling or in several that differ in case. A table
of declarations has one place for each spelling, that of its first declaration, with the version of
its last one; an installation looks at the places regardless of case and takes the last. So it is
the spelling that came up last that counts, and in it the last declaration
(`contentVersion_declared`). This is the last declaration of all as long as no spelling comes back
after another one (`contentVersion_overridden` is about a plugin for which one does).
-/

namespace PluginAudit

namespace ContentVersion

open Text

/-! ## Declarations -/

/-- A declaration names a plugin before its last equals sign and a version after it, perhaps with
blanks around them. -/
structure Declares (declaration name version : String) : Prop where
  split : ∃ before after, declaration.toList = before ++ '=' :: after ∧ '=' ∉ after ∧
    trim before = name.toList ∧ trim after = version.toList
  name_ne_empty : name ≠ ""
  version_ne_empty : version ≠ ""

theorem read_of_not_mem {declaration : String} (h : '=' ∉ declaration.toList) :
    read declaration = .error ⟨declaration⟩ := by
  have hnone : declaration.toList.reverse.dropWhile (!· == '=') = [] :=
    List.dropWhile_eq_nil_iff.2 fun c hc => by
      have hne : c ≠ '=' := fun he => h (he ▸ List.mem_reverse.1 hc)
      simp [hne]
  rw [read, hnone]

theorem read_of_split {declaration : String} {before after : List Char}
    (h : declaration.toList = before ++ '=' :: after) (hafter : '=' ∉ after) :
    read declaration =
      if (trim before).isEmpty || (trim after).isEmpty then .error ⟨declaration⟩
      else .ok (String.ofList (trim before), String.ofList (trim after)) := by
  have hback : declaration.toList.reverse = after.reverse ++ '=' :: before.reverse := by
    rw [h, List.reverse_append, List.reverse_cons, List.append_assoc, List.singleton_append]
  have hpass : ∀ c ∈ after.reverse, (!c == '=') = true := fun c hc => by
    have hne : c ≠ '=' := fun he => hafter (he ▸ List.mem_reverse.1 hc)
    simp [hne]
  have hdrop : declaration.toList.reverse.dropWhile (!· == '=') = '=' :: before.reverse := by
    rw [hback, List.dropWhile_append_of_pos hpass, List.dropWhile_cons_of_neg (by simp)]
  have htake : declaration.toList.reverse.takeWhile (!· == '=') = after.reverse := by
    rw [hback, List.takeWhile_append_of_pos hpass, List.takeWhile_cons_of_neg (by simp),
      List.append_nil]
  rw [read, hdrop, htake]
  simp only [List.reverse_reverse]

theorem read_eq_ok_iff {declaration : String} {p : String × String} :
    read declaration = .ok p ↔ Declares declaration p.1 p.2 := by
  obtain ⟨name, version⟩ := p
  constructor
  · intro h
    by_cases hsign : '=' ∈ declaration.toList
    · obtain ⟨after, before, hsplit, hafter⟩ :=
        List.eq_append_cons_of_mem (List.mem_reverse.2 hsign)
      have hsplit' : declaration.toList = before.reverse ++ '=' :: after.reverse := by
        rw [← List.reverse_reverse declaration.toList, hsplit]
        simp
      have hafter' : '=' ∉ after.reverse := mt List.mem_reverse.1 hafter
      rw [read_of_split hsplit' hafter'] at h
      split at h
      · cases h
      · next hne =>
        cases h
        simp only [Bool.or_eq_true, List.isEmpty_iff, not_or] at hne
        exact ⟨⟨_, _, hsplit', hafter', String.toList_ofList.symm, String.toList_ofList.symm⟩,
          fun he => hne.1 (by simpa using congrArg String.toList he),
          fun he => hne.2 (by simpa using congrArg String.toList he)⟩
    · rw [read_of_not_mem hsign] at h
      cases h
  · rintro ⟨⟨before, after, hsplit, hafter, hname, hversion⟩, hne, hne'⟩
    rw [read_of_split hsplit hafter, hname, hversion, if_neg, String.ofList_toList,
      String.ofList_toList]
    simp [hne, hne']

/-- A list of declarations is read as the table of what they declare. -/
theorem readAll_eq_ok_iff {declarations : List String} {table : Ordered String} :
    readAll declarations = .ok table ↔
      ∃ declared, List.Forall₂ (fun d p => Declares d p.1 p.2) declarations declared ∧
        table = Ordered.ofPairs declared := by
  rw [readAll, map_eq_ok_iff]
  simp only [mapM_eq_ok_iff, read_eq_ok_iff]
  exact exists_congr fun declared => and_congr_right' eq_comm

/-! ## Which of several declarations counts -/

/-- Whether a plugin is called by a name, in some case. -/
def Names (plugin name : String) : Prop := lowerString name = lowerString plugin

instance (plugin name : String) : Decidable (Names plugin name) :=
  inferInstanceAs (Decidable (_ = _))

/-- The last of the declarations whose names pass a test is by this name and of this version. -/
structure IsLast (named : String → Prop) (declared : List (String × String))
    (name version : String) : Prop where
  split : ∃ earlier later, declared = earlier ++ (name, version) :: later ∧
    ∀ p ∈ later, ¬ named p.1
  passes : named name

/-- Of the spellings of a plugin, this one came up last. -/
structure IsNewest (plugin : String) (declared : List (String × String)) (name : String) :
    Prop where
  split : ∃ before after, declared.map (·.1) = before ++ name :: after ∧ name ∉ before ∧
    ∀ other ∈ after, Names plugin other → other ∈ before ∨ other = name
  named : Names plugin name

variable {declared : List (String × String)} {plugin name version key : String}

/-- What is looked up from the end is the last of what is there. -/
theorem lookup_reverse_eq_some_iff {f : String → String} :
    (declared.map fun p => (f p.1, p.2)).reverse.lookup key = some version ↔
      ∃ name, IsLast (f · = key) declared name version := by
  rw [List.lookup_eq_some_iff]
  constructor
  · rintro ⟨later, earlier, h, hlater⟩
    have hsplit := congrArg List.reverse h
    rw [List.reverse_reverse, List.reverse_append, List.reverse_cons, List.append_assoc,
      List.singleton_append, List.map_eq_append_iff] at hsplit
    obtain ⟨l, r, rfl, -, hr⟩ := hsplit
    obtain ⟨⟨name, v⟩, r, rfl, hp, hback⟩ := List.map_eq_cons_iff.1 hr
    cases hp
    refine ⟨name, ⟨l, r, rfl, fun p hp => ?_⟩, rfl⟩
    have hmem : (f p.1, p.2) ∈ later := by
      rw [← List.mem_reverse, ← hback]
      exact List.mem_map.2 ⟨p, hp, rfl⟩
    exact Ne.symm (bne_iff_ne.1 (hlater _ hmem))
  · rintro ⟨name, ⟨earlier, later, rfl, hlater⟩, rfl⟩
    refine ⟨(later.map fun p => (f p.1, p.2)).reverse, (earlier.map fun p => (f p.1, p.2)).reverse,
      by simp, fun p hp => ?_⟩
    obtain ⟨q, hq, rfl⟩ := List.mem_map.1 (List.mem_reverse.1 hp)
    exact bne_iff_ne.2 (Ne.symm (hlater q hq))

theorem lookup_reverse_eq_none_iff {f : String → String} :
    (declared.map fun p => (f p.1, p.2)).reverse.lookup key = none ↔
      ∀ p ∈ declared, ¬ f p.1 = key := by
  rw [List.lookup_eq_none_iff]
  simp only [List.mem_reverse, List.forall_mem_map, bne_iff_ne, ne_comm, Ne]

/-- A table has for each name the version of its last declaration. -/
theorem mem_ofPairs_iff :
    (name, version) ∈ Ordered.ofPairs declared ↔ IsLast (· = name) declared name version := by
  rw [← Ordered.get?_eq_some_iff (Ordered.nodup_keys_ofPairs declared), Ordered.get?_ofPairs]
  have hlast : declared.reverse.lookup name = some version ↔
      ∃ name', IsLast (id · = name) declared name' version := by
    rw [← lookup_reverse_eq_some_iff]
    simp
  rw [hlast]
  constructor
  · rintro ⟨name', h⟩
    obtain rfl : name' = name := h.passes
    exact h
  · exact fun h => ⟨name, h⟩

/-- What comes after an item that is new keeps its new items only. -/
theorem exists_eraseDups_eq {before : List String} (h : name ∉ before) (after : List String) :
    ∃ rest, (before ++ name :: after).eraseDups = before.eraseDups ++ name :: rest ∧
      ∀ other, other ∈ rest ↔ other ∈ after ∧ other ∉ before ∧ other ≠ name := by
  have hremove : (name :: after).removeAll before = name :: after.removeAll before := by
    simp [List.removeAll, h]
  refine ⟨_, by rw [List.eraseDups_append, hremove, List.eraseDups_cons], fun other => ?_⟩
  simpa [List.removeAll] using fun _ => and_comm

/-- The places of a table stand in the order in which the spellings came up. -/
theorem later_iff {earlier later : List (String × String)}
    (h : Ordered.ofPairs declared = earlier ++ (name, version) :: later)
    {before after : List String} (hnames : declared.map (·.1) = before ++ name :: after)
    (hnew : name ∉ before) (other : String) :
    other ∈ later.map (·.1) ↔ other ∈ after ∧ other ∉ before ∧ other ≠ name := by
  obtain ⟨rest, hrest, hmem⟩ := exists_eraseDups_eq hnew after
  have hkeys : (Ordered.ofPairs declared).keys = earlier.map (·.1) ++ name :: later.map (·.1) := by
    rw [h, Ordered.keys, List.map_append, List.map_cons]
  have hnodup := Ordered.nodup_keys_ofPairs declared
  rw [hkeys] at hnodup
  rw [Ordered.keys_ofPairs, hnames, hrest] at hkeys
  obtain ⟨hl, hr, hlr⟩ := List.nodup_append.1 hnodup
  have hnot : name ∉ earlier.map (·.1) := fun hm => hlr _ hm _ List.mem_cons_self rfl
  obtain ⟨-, -, hlater⟩ :=
    (List.append_cons_inj_of_notMem hnot (List.nodup_cons.1 hr).1).1 hkeys.symm
  rw [hlater, hmem]

/-- A table names what is declared. -/
theorem forall_mem_ofPairs_iff (P : String → Prop) :
    (∀ p ∈ Ordered.ofPairs declared, P p.1) ↔ ∀ p ∈ declared, P p.1 := by
  have hkeys : (Ordered.ofPairs declared).map (·.1) = (declared.map (·.1)).eraseDups :=
    Ordered.keys_ofPairs declared
  calc (∀ p ∈ Ordered.ofPairs declared, P p.1)
    _ ↔ ∀ name ∈ (Ordered.ofPairs declared).map (·.1), P name := List.forall_mem_map.symm
    _ ↔ ∀ name ∈ declared.map (·.1), P name := by simp only [hkeys, List.mem_eraseDups]
    _ ↔ ∀ p ∈ declared, P p.1 := List.forall_mem_map

theorem isLast_ofPairs_iff :
    IsLast (Names plugin) (Ordered.ofPairs declared) name version ↔
      IsNewest plugin declared name ∧ IsLast (· = name) declared name version := by
  rw [← mem_ofPairs_iff]
  constructor
  · rintro ⟨⟨earlier, later, hsplit, hlater⟩, hnamed⟩
    have hmem : (name, version) ∈ Ordered.ofPairs declared := by
      rw [hsplit]
      exact List.mem_append_right _ List.mem_cons_self
    have hname : name ∈ declared.map (·.1) := by
      rw [← List.mem_eraseDups, ← Ordered.keys_ofPairs]
      exact List.mem_map.2 ⟨_, hmem, rfl⟩
    obtain ⟨before, after, hnames, hnew⟩ := List.eq_append_cons_of_mem hname
    refine ⟨⟨⟨before, after, hnames, hnew, fun other hother hn => ?_⟩, hnamed⟩, hmem⟩
    by_contra hne
    obtain ⟨p, hp, rfl⟩ := List.mem_map.1
      ((later_iff hsplit hnames hnew other).2 ⟨hother, not_or.1 hne⟩)
    exact hlater p hp hn
  · rintro ⟨⟨⟨before, after, hnames, hnew, hafter⟩, hnamed⟩, hmem⟩
    obtain ⟨earlier, later, hsplit⟩ := List.append_of_mem hmem
    refine ⟨⟨earlier, later, hsplit, fun p hp hn => ?_⟩, hnamed⟩
    obtain ⟨hother, hne⟩ :=
      (later_iff hsplit hnames hnew p.1).1 (List.mem_map.2 ⟨p, hp, rfl⟩)
    exact (hafter _ hother hn).elim hne.1 hne.2

/-- No spelling of a plugin comes back after another one. -/
def KeepsSpelling (plugin : String) (declared : List (String × String)) : Prop :=
  ∀ name other, Names plugin name → Names plugin other → name ≠ other →
    ¬ [name, other, name].Sublist (declared.map (·.1))

/-- The last declaration of a plugin is also the last one in its spelling. -/
theorem IsLast.spelled (h : IsLast (Names plugin) declared name version) :
    IsLast (· = name) declared name version := by
  obtain ⟨⟨earlier, later, hsplit, hlater⟩, hnamed⟩ := h
  refine ⟨⟨earlier, later, hsplit, fun p hp he => hlater p hp ?_⟩, rfl⟩
  rw [he]
  exact hnamed

/-- If no spelling comes back, the last declaration is in the spelling that came up last. -/
theorem IsLast.isNewest (h : IsLast (Names plugin) declared name version)
    (hkeeps : KeepsSpelling plugin declared) : IsNewest plugin declared name := by
  obtain ⟨⟨earlier, later, rfl, hlater⟩, hnamed⟩ := h
  have hname : name ∈ (earlier ++ (name, version) :: later).map (·.1) := by simp
  obtain ⟨before, after, hnames, hnew⟩ := List.eq_append_cons_of_mem hname
  refine ⟨⟨before, after, hnames, hnew, fun other hother hn => ?_⟩, hnamed⟩
  by_contra hne
  obtain ⟨hbefore, hne⟩ := not_or.1 hne
  have hnot : other ∉ later.map (·.1) := fun hm => by
    obtain ⟨p, hp, rfl⟩ := List.mem_map.1 hm
    exact hlater p hp hn
  rw [List.map_append, List.map_cons] at hnames
  -- another spelling after the first place of the last one stands before the last place
  rcases List.append_eq_append_iff.1 hnames with ⟨l, -, hl⟩ | ⟨l, hearlier, hl⟩
  · refine hnot ?_
    cases l with
    | nil => exact (List.cons.inj hl).2 ▸ hother
    | cons x l =>
      rw [(List.cons.inj hl).2]
      exact List.mem_append_right _ (List.mem_cons_of_mem _ hother)
  · cases l with
    | nil => exact hnot ((List.cons.inj hl).2 ▸ hother)
    | cons x l =>
      obtain ⟨rfl, rfl⟩ := List.cons.inj hl
      have hmem : other ∈ l := by
        rcases List.mem_append.1 hother with hmem | hmem
        · exact hmem
        · exact ((List.mem_cons.1 hmem).elim hne hnot).elim
      refine hkeeps name other hnamed hn (Ne.symm hne) ?_
      have hmid : [other, name].Sublist (l ++ name :: later.map (·.1)) :=
        (List.singleton_sublist.2 hmem).append ((List.nil_sublist _).cons_cons name)
      rw [List.map_append, List.map_cons, hearlier, List.append_assoc, List.cons_append]
      exact (hmid.cons_cons name).trans (List.sublist_append_right _ _)

end ContentVersion

namespace Host.Installation

open ContentVersion Path Text

theorem contentVersions_of_open {s : Settings} {disk : Disk.Fixed} {i : Installation}
    (h : (Dialogue.run disk (ofSettings s)).2 = .ok i) :
    i.contentVersions =
      Ordered.ofPairs (s.contentVersions.map fun p => (lowerString p.1, p.2)) := by
  change (Dialogue.run disk (Dialogue.bind _ _)).2 = _ at h
  rw [Dialogue.run_bind] at h
  cases hload : (Dialogue.run disk (readLoadOrder s.pluginsFile)).2 with
  | error f =>
    rw [hload] at h
    cases h
  | ok order =>
    rw [hload] at h
    cases h
    rfl

/-- A version is replied from the declarations alone, whenever it is asked for. -/
theorem reply_contentVersion (i : Installation) (past : List Occasion) (now : Disk.Fixed)
    (path : String) : i.reply past now (.contentVersion path) =
      .ok (i.contentVersions.get? (lowerString (basename path))) := by
  rw [reply, (i.stateless_answer rfl).eq]
  rfl

/-- The version of a file is that of the last declaration in the spelling of its name that came up
last, and of the last declaration of its name in any case as long as no spelling comes back after
another one. A file has no version only if no declaration names it. -/
theorem contentVersion_declared {declarations : List String} {s : Settings} {opened : Disk.Fixed}
    {i : Installation} (hread : readAll declarations = .ok s.contentVersions)
    (hopen : (Dialogue.run opened (ofSettings s)).2 = .ok i) (past : List Occasion)
    (now : Disk.Fixed) (path : String) :
    ∃ declared, List.Forall₂ (fun d p => Declares d p.1 p.2) declarations declared ∧
      ∃ version? : Option String, i.reply past now (.contentVersion path) = .ok version? ∧
        (∀ version, version? = some version ↔ ∃ name,
          IsNewest (basename path) declared name ∧ IsLast (· = name) declared name version) ∧
        (KeepsSpelling (basename path) declared → ∀ version, version? = some version ↔
          ∃ name, IsLast (Names (basename path)) declared name version) ∧
        (version? = none ↔ ∀ p ∈ declared, ¬ Names (basename path) p.1) := by
  obtain ⟨declared, hdeclared, htable⟩ := readAll_eq_ok_iff.1 hread
  have hversions := contentVersions_of_open hopen
  rw [htable] at hversions
  have hsome : ∀ version, i.contentVersions.get? (lowerString (basename path)) = some version ↔
      ∃ name, IsNewest (basename path) declared name ∧
        IsLast (· = name) declared name version := fun version => by
    simp only [← isLast_ofPairs_iff]
    rw [hversions, Ordered.get?_ofPairs]
    exact lookup_reverse_eq_some_iff
  have hnone : i.contentVersions.get? (lowerString (basename path)) = none ↔
      ∀ p ∈ declared, ¬ Names (basename path) p.1 := by
    rw [hversions, Ordered.get?_ofPairs, lookup_reverse_eq_none_iff]
    exact forall_mem_ofPairs_iff fun name => ¬ Names (basename path) name
  refine ⟨declared, hdeclared, _, reply_contentVersion i past now path, hsome,
    fun hkeeps version => ?_, hnone⟩
  have hlast : ∀ name v, IsLast (Names (basename path)) declared name v →
      i.contentVersions.get? (lowerString (basename path)) = some v :=
    fun name v h => (hsome v).2 ⟨name, h.isNewest hkeeps, h.spelled⟩
  refine ⟨fun h => ?_, fun ⟨name, hname⟩ => hlast name version hname⟩
  cases hlookup :
      (declared.map fun p => (lowerString p.1, p.2)).reverse.lookup
        (lowerString (basename path)) with
  | none => exact absurd (hnone.2 (lookup_reverse_eq_none_iff.1 hlookup)) (by rw [h]; simp)
  | some v =>
    obtain ⟨name, hname⟩ := lookup_reverse_eq_some_iff.1 hlookup
    have hv : v = version := Option.some.inj ((hlast name v hname).symm.trans h)
    exact ⟨name, hv ▸ hname⟩

/-- An installation without a load order is opened by looking at nothing. -/
theorem open_of_no_plugins_file {s : Settings} (h : s.pluginsFile = none) (disk : Disk.Fixed) :
    (Dialogue.run disk (ofSettings s)).2 = .ok {
      directories := s.directories
      contentVersions :=
        Ordered.ofPairs (s.contentVersions.map fun p => (lowerString p.1, p.2))
      format := s.format } := by
  rw [ofSettings, h]
  rfl

theorem contentVersion_declared_twice :
    let declarations := ["x=1.esp=1", " X=1.ESP = 2 ", "y.esp=3"]
    let s : Settings := {
      base := "/"
      data := "game/Data"
      contentVersions := [("x=1.esp", "1"), ("X=1.ESP", "2"), ("y.esp", "3")]
      format := none }
    let i : Installation := {
      directories := s.directories
      contentVersions := [("x=1.esp", "2"), ("y.esp", "3")]
      format := none }
    let disk := (Tree.mk []).answer
    readAll declarations = .ok s.contentVersions ∧
      (Dialogue.run disk (ofSettings s)).2 = .ok i ∧
      ∃ declared, List.Forall₂ (fun d p => Declares d p.1 p.2) declarations declared ∧
        IsLast (Names "X=1.esp") declared "X=1.ESP" "2" ∧
        i.reply [] disk (.contentVersion "sub/X=1.esp") = .ok (some "2") := by
  intro declarations s i disk
  have hread : readAll declarations = .ok s.contentVersions := by decide +kernel
  have htable : Ordered.ofPairs (s.contentVersions.map fun p => (lowerString p.1, p.2)) =
      i.contentVersions := by decide +kernel
  have hopen : (Dialogue.run disk (ofSettings s)).2 = .ok i := by
    rw [open_of_no_plugins_file rfl, htable]
  have hbase : basename "sub/X=1.esp" = "X=1.esp" := by decide +kernel
  obtain ⟨declared, hdeclared, answer, hreply, -, hlast, -⟩ :=
    contentVersion_declared hread hopen [] disk "sub/X=1.esp"
  have hpairs : declared = [("x=1.esp", "1"), ("X=1.ESP", "2"), ("y.esp", "3")] := by
    simp only [← read_eq_ok_iff] at hdeclared
    have hall : declarations.mapM read =
        .ok [("x=1.esp", "1"), ("X=1.ESP", "2"), ("y.esp", "3")] := by decide +kernel
    exact Except.ok.inj ((mapM_eq_ok_iff.2 hdeclared).symm.trans hall)
  rw [hbase] at hlast
  have hkeeps : KeepsSpelling "X=1.esp" declared := fun name other _ _ _ hsub => by
    rw [hpairs] at hsub
    have heq := hsub.eq_of_length rfl
    simp at heq
    exact absurd (heq.1.symm.trans heq.2.2) (by decide)
  have hlastDeclared : IsLast (Names "X=1.esp") declared "X=1.ESP" "2" := by
    refine ⟨⟨[("x=1.esp", "1")], [("y.esp", "3")], hpairs, fun p hp => ?_⟩, by decide +kernel⟩
    cases List.mem_singleton.1 hp
    decide +kernel
  have hanswer : answer = some "2" := (hlast hkeeps "2").2 ⟨_, hlastDeclared⟩
  exact ⟨hread, hopen, declared, hdeclared, hlastDeclared, hanswer ▸ hreply⟩

/-- The second declaration wins over the third, whose spelling has come up before. -/
theorem contentVersion_overridden :
    ¬ ∀ (declarations : List String) (declared : List (String × String)) (s : Settings)
      (disk : Disk.Fixed) (i : Installation) (path name version : String),
      readAll declarations = .ok s.contentVersions →
      List.Forall₂ (fun d p => Declares d p.1 p.2) declarations declared →
      (Dialogue.run disk (ofSettings s)).2 = .ok i →
      IsLast (Names (basename path)) declared name version →
      i.reply [] disk (.contentVersion path) = .ok (some version) := by
  intro h
  let declared := [("B.esp", "1"), ("b.esp", "2"), ("B.esp", "3")]
  let s : Settings := {
    base := "/"
    data := "game/Data"
    contentVersions := [("B.esp", "3"), ("b.esp", "2")]
    format := none }
  let disk := (Tree.mk []).answer
  have hread : readAll ["B.esp=1", "b.esp=2", "B.esp=3"] = .ok s.contentVersions := by
    decide +kernel
  have hdeclared : List.Forall₂ (fun d p => Declares d p.1 p.2)
      ["B.esp=1", "b.esp=2", "B.esp=3"] declared := by
    simp only [← read_eq_ok_iff]
    exact mapM_eq_ok_iff.1 (by decide +kernel)
  have hlast : IsLast (Names (basename "b.esp")) declared "B.esp" "3" :=
    ⟨⟨[("B.esp", "1"), ("b.esp", "2")], [], rfl, fun _ hp => nomatch hp⟩,
      by decide +kernel⟩
  have hreply := h _ _ s disk _ "b.esp" _ _ hread hdeclared (open_of_no_plugins_file rfl disk) hlast
  have hget : (Ordered.ofPairs (s.contentVersions.map fun p => (lowerString p.1, p.2))).get?
      (lowerString (basename "b.esp")) = some "2" := by decide +kernel
  exact absurd (Option.some.inj (hget.symm.trans (Except.ok.inj hreply))) (by decide)

end Host.Installation

end PluginAudit
