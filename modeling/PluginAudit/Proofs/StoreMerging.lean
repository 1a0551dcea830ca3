import PluginAudit.Metadata.Loading
import PluginAudit.Proofs.LowerCase
import PluginAudit.Proofs.RecordMerging

/-!
# A userlist over a masterlist

Loading a userlist over a masterlist gives the store of one document that has the entries of both
(`load_eq_ofText`). A store is two lists with keys, one of exact names and one of patterns, and to
add an entry is to add an item to one of them. So the entries of the userlist may be stored on their
own first and added afterwards because records may be merged from either side, and because the
entries of a store, stored again, keep their keys.
-/

namespace PluginAudit.Metadata

/-! ## Entries one after the other -/

namespace Store

/-- Stores entries one after the other; one that cannot be stored is left out. -/
def addAll (s : Store) : List Entry → Store
  | [] => s
  | e :: es =>
    match s.add e.name e.record with
    | .ok t => t.addAll es
    | .error _ => s.addAll es

theorem addAll_append (s : Store) (es fs : List Entry) :
    s.addAll (es ++ fs) = (s.addAll es).addAll fs := by
  induction es generalizing s with
  | nil => rfl
  | cons e es ih =>
    rw [List.cons_append, addAll, addAll]
    split
    next t _ => exact ih t
    next => exact ih s

end Store

theorem storeEntries_fst (source : String) (s : Store) (index : Nat) (vs : List Value) :
    (storeEntries source s index vs).1 = s.addAll (vs.filterMap Entry.ofValue?) := by
  induction vs generalizing s index with
  | nil => rfl
  | cons v vs ih =>
    cases hv : Entry.ofValue? v with
    | none =>
      rw [List.filterMap_cons_none hv, ← ih s (index + 1), storeEntries, hv]
    | some e =>
      rw [List.filterMap_cons_some hv, Store.addAll, storeEntries, hv]
      dsimp only
      cases ha : s.add e.name e.record with
      | error f => exact ih s (index + 1)
      | ok t => exact ih t (index + 1)

/-- The entries of a document; none if it cannot be read or has no list of plugins. -/
def entries? (read : Reader) (text : List Char) : Option (List Entry) :=
  match read text with
  | .error _ => none
  | .ok v => ((v.field? "plugins").bind Value.list?).map (·.filterMap Entry.ofValue?)

/-- A document with entries gives the store of its entries. -/
theorem ofText_of_entries {read : Reader} {text : List Char} {es : List Entry}
    (h : entries? read text = some es) (source : String) :
    ∃ events, Store.ofText source text read = .ok (({} : Store).addAll es, events) := by
  unfold entries? at h
  cases hread : read text with
  | error f => simp [hread] at h
  | ok v =>
    cases hitems : (v.field? "plugins").bind Value.list? with
    | none => simp [hread, hitems] at h
    | some items =>
      simp only [hread, hitems, Option.map_some, Option.some.injEq] at h
      rw [Store.ofText, hread, ← h, ← storeEntries_fst source {} 0 items]
      simp only [Store.ofValue, hitems]
      exact ⟨_, rfl⟩

/-! ## Entries as items -/

namespace Store

/-- A record under an exact name, and one that is put over it. -/
def overExact (old new : String × Record) : String × Record := (old.1, old.2.merge new.2)

/-- A record under a pattern, and one that is put over it. The pattern stays as it is. -/
def overPattern (old new : String × PatternEntry) : String × PatternEntry :=
  (old.1, { old.2 with record := old.2.record.merge new.2.record })

/-- Merging a value into the one under a key is adding an item with that key. -/
theorem put_eq_addKeyed {α : Type} (m : Ordered α) (key : String) (a : α) (f : α → α → α) :
    m.put key ((m.get? key).elim a (f · a)) =
      addKeyed Prod.fst (fun old new => (old.1, f old.2 new.2)) (key, a) m := by
  induction m with
  | nil => rfl
  | cons p m ih =>
    obtain ⟨k, b⟩ := p
    by_cases hk : k = key
    · subst hk
      simp [Ordered.put, Ordered.get?, addKeyed]
    · have hget : Ordered.get? ((k, b) :: m) key = Ordered.get? m key := by
        simp [Ordered.get?, List.lookup_cons, beq_eq_false_iff_ne.2 (Ne.symm hk)]
      rw [hget, addKeyed_of_ne hk, ← ih, Ordered.put, if_neg hk]

variable {s : Store} {name : String} {record : Record}

theorem add_exact (h : isPattern name = false) :
    s.add name record = .ok { s with
      exact := addKeyed Prod.fst overExact (Text.lowerString name, record) s.exact } := by
  have hkey : isPattern (Text.lowerString name) = false := by rw [Text.isPattern_lowerString, h]
  have hput := put_eq_addKeyed s.exact (Text.lowerString name) record Record.merge
  rw [add, get?]
  simp only [set, hkey, Bool.false_eq_true, if_false]
  cases hold : s.exact.get? (Text.lowerString name) with
  | none =>
    rw [hold] at hput
    exact congrArg (fun m => Except.ok { s with exact := m }) hput
  | some old =>
    rw [hold] at hput
    exact congrArg (fun m => Except.ok { s with exact := m }) hput

theorem add_pattern {p : NamePattern} (h : isPattern name = true)
    (hp : NamePattern.compile name = .ok p) :
    s.add name record = .ok { s with
      patterns := addKeyed Prod.fst overPattern
        (Text.lowerString name, ⟨name, p, record⟩) s.patterns } := by
  have hkey : isPattern (Text.lowerString name) = true := by rw [Text.isPattern_lowerString, h]
  have hput := put_eq_addKeyed s.patterns (Text.lowerString name) ⟨name, p, record⟩
    fun old new => { old with record := old.record.merge new.record }
  rw [add, get?]
  simp only [set, hkey, if_true]
  cases hold : s.patterns.get? (Text.lowerString name) with
  | none =>
    rw [hold] at hput
    simp only [Option.map_none, hp]
    exact congrArg (fun m => Except.ok { s with patterns := m }) hput
  | some old =>
    rw [hold] at hput
    exact congrArg (fun m => Except.ok { s with patterns := m }) hput

end Store

/-- The item that an entry with an exact name adds. -/
def Entry.exactItem? (e : Entry) : Option (String × Record) :=
  if isPattern e.name then none else some (Text.lowerString e.name, e.record)

/-- The item that an entry with a pattern adds, if the pattern compiles. -/
def Entry.patternItem? (e : Entry) : Option (String × PatternEntry) :=
  if isPattern e.name then
    (NamePattern.compile e.name).toOption.map fun p =>
      (Text.lowerString e.name, ⟨e.name, p, e.record⟩)
  else none

/-- An entry whose name compiles if it is a pattern. -/
def Entry.Compiles (e : Entry) : Prop :=
  isPattern e.name = true → ∃ p, NamePattern.compile e.name = .ok p

namespace Store

/-- The store with the items of entries. -/
def withItems (s : Store) (es : List Entry) : Store :=
  { exact := addEach (addKeyed Prod.fst overExact) s.exact (es.filterMap Entry.exactItem?)
    patterns :=
      addEach (addKeyed Prod.fst overPattern) s.patterns (es.filterMap Entry.patternItem?) }

theorem add_eq {s : Store} {e : Entry} (h : e.Compiles) :
    s.add e.name e.record = .ok (s.withItems [e]) := by
  cases hp : isPattern e.name with
  | false =>
    rw [add_exact hp]
    simp [withItems, Entry.exactItem?, Entry.patternItem?, hp, addEach]
  | true =>
    obtain ⟨p, hcompile⟩ := h hp
    rw [add_pattern hp hcompile]
    simp [withItems, Entry.exactItem?, Entry.patternItem?, hp, hcompile, addEach, Except.toOption]

theorem withItems_cons (s : Store) (e : Entry) (es : List Entry) :
    s.withItems (e :: es) = (s.withItems [e]).withItems es := by
  have happend : e :: es = [e] ++ es := rfl
  rw [happend, withItems, List.filterMap_append, List.filterMap_append, addEach_append,
    addEach_append]
  rfl

theorem addAll_eq {es : List Entry} (h : ∀ e ∈ es, e.Compiles) (s : Store) :
    s.addAll es = s.withItems es := by
  induction es generalizing s with
  | nil => rfl
  | cons e es ih =>
    obtain ⟨he, hes⟩ := List.forall_mem_cons.1 h
    calc s.addAll (e :: es) = (s.withItems [e]).addAll es := by rw [addAll, add_eq he]
      _ = (s.withItems [e]).withItems es := ih hes _
      _ = s.withItems (e :: es) := (withItems_cons s e es).symm

/-! ## Stores whose entries can be stored again -/

/-- A record under an exact name in lower case. -/
structure GoodExact (item : String × Record) : Prop where
  lower : Text.lowerString item.1 = item.1
  exact : isPattern item.1 = false
  distinct : item.2.Distinct

/-- A record under the pattern that its source writes. -/
structure GoodPattern (item : String × PatternEntry) : Prop where
  lower : Text.lowerString item.2.source = item.1
  pattern : isPattern item.2.source = true
  compile : NamePattern.compile item.2.source = .ok item.2.pattern
  distinct : item.2.record.Distinct

theorem overlays_exact : Overlays GoodExact Prod.fst overExact where
  keepsKey := fun _ _ h => h
  good_over := fun a b ha _ _ => ⟨ha.lower, ha.exact, ha.distinct.merge b.2⟩
  assoc := by
    intro a b c ha hb _
    simp only [overExact, Record.merge_assoc ha.distinct hb.distinct]

theorem overlays_pattern : Overlays GoodPattern Prod.fst overPattern where
  keepsKey := fun _ _ h => h
  good_over := fun a b ha _ _ =>
    ⟨ha.lower, ha.pattern, ha.compile, ha.distinct.merge b.2.record⟩
  assoc := by
    intro a b c ha hb _
    simp only [overPattern, Record.merge_assoc ha.distinct hb.distinct]

/-- A store of records under their keys. -/
structure Sound (s : Store) : Prop where
  exact : Keyed GoodExact Prod.fst s.exact
  patterns : Keyed GoodPattern Prod.fst s.patterns

end Store

/-- An entry that is stored, whose lists name no file and no checksum twice. -/
structure Entry.Loadable (e : Entry) : Prop where
  compiles : e.Compiles
  distinct : e.record.Distinct

theorem Entry.Loadable.good_exactItem {e : Entry} (h : e.Loadable) {item : String × Record}
    (hi : e.exactItem? = some item) : Store.GoodExact item := by
  cases hp : isPattern e.name with
  | true => simp [exactItem?, hp] at hi
  | false =>
    simp only [exactItem?, hp, Bool.false_eq_true, if_false, Option.some.injEq] at hi
    subst hi
    exact ⟨Text.lowerString_lowerString _, (Text.isPattern_lowerString _).trans hp, h.distinct⟩

theorem Entry.Loadable.good_patternItem {e : Entry} (h : e.Loadable)
    {item : String × PatternEntry} (hi : e.patternItem? = some item) : Store.GoodPattern item := by
  cases hp : isPattern e.name with
  | false => simp [patternItem?, hp] at hi
  | true =>
    obtain ⟨p, hcompile⟩ := h.compiles hp
    simp only [patternItem?, hp, if_true, hcompile, Except.toOption, Option.map_some,
      Option.some.injEq] at hi
    subst hi
    exact ⟨rfl, hp, hcompile, h.distinct⟩

namespace Store

theorem good_exactItems {es : List Entry} (h : ∀ e ∈ es, e.Loadable) :
    ∀ item ∈ es.filterMap Entry.exactItem?, GoodExact item := by
  intro item hi
  obtain ⟨e, he, hitem⟩ := List.mem_filterMap.1 hi
  exact (h e he).good_exactItem hitem

theorem good_patternItems {es : List Entry} (h : ∀ e ∈ es, e.Loadable) :
    ∀ item ∈ es.filterMap Entry.patternItem?, GoodPattern item := by
  intro item hi
  obtain ⟨e, he, hitem⟩ := List.mem_filterMap.1 hi
  exact (h e he).good_patternItem hitem

theorem sound_empty : ({} : Store).Sound :=
  ⟨(collects_addKeyed overlays_exact).nil, (collects_addKeyed overlays_pattern).nil⟩

theorem Sound.withItems {s : Store} (hs : s.Sound) {es : List Entry} (h : ∀ e ∈ es, e.Loadable) :
    (s.withItems es).Sound :=
  ⟨addEach_keeps (collects_addKeyed overlays_exact).keeps hs.exact (good_exactItems h),
    addEach_keeps (collects_addKeyed overlays_pattern).keeps hs.patterns (good_patternItems h)⟩

/-- The entries of a store, to be stored in another. -/
def toEntries (s : Store) : List Entry := s.entries.map fun (name, record) => ⟨name, record⟩

theorem toEntries_eq (s : Store) : s.toEntries =
    s.exact.map (fun item => ⟨item.1, item.2⟩) ++
      s.patterns.map fun item => ⟨item.2.source, item.2.record⟩ := by
  rw [toEntries, entries, List.map_append, List.map_map]
  rfl

variable {s : Store}

theorem GoodExact.items {item : String × Record} (h : GoodExact item) :
    Entry.exactItem? ⟨item.1, item.2⟩ = some item ∧
      Entry.patternItem? ⟨item.1, item.2⟩ = none := by
  simp [Entry.exactItem?, Entry.patternItem?, h.exact, h.lower]

theorem GoodPattern.items {item : String × PatternEntry} (h : GoodPattern item) :
    Entry.exactItem? ⟨item.2.source, item.2.record⟩ = none ∧
      Entry.patternItem? ⟨item.2.source, item.2.record⟩ = some item := by
  simp [Entry.exactItem?, Entry.patternItem?, h.pattern, h.lower, h.compile, Except.toOption]

/-- The entries of a store are the items it has. -/
theorem items_toEntries (hs : s.Sound) :
    s.toEntries.filterMap Entry.exactItem? = s.exact ∧
      s.toEntries.filterMap Entry.patternItem? = s.patterns := by
  have hexact := fun item hi => (hs.exact.good item hi).items
  have hpatterns := fun item hi => (hs.patterns.good item hi).items
  rw [toEntries_eq, List.filterMap_append, List.filterMap_append, List.filterMap_map,
    List.filterMap_map, List.filterMap_map, List.filterMap_map]
  constructor
  · refine (congrArg₂ (· ++ ·) ?_ ?_).trans (List.append_nil s.exact)
    · exact (List.filterMap_congr fun item hi => (hexact item hi).1).trans List.filterMap_some
    · exact List.filterMap_eq_nil_iff.2 fun item hi => (hpatterns item hi).1
  · refine (congrArg₂ (· ++ ·) ?_ ?_).trans (List.nil_append s.patterns)
    · exact List.filterMap_eq_nil_iff.2 fun item hi => (hexact item hi).2
    · exact (List.filterMap_congr fun item hi => (hpatterns item hi).2).trans List.filterMap_some

theorem compiles_toEntries (hs : s.Sound) : ∀ e ∈ s.toEntries, e.Compiles := by
  rw [toEntries_eq]
  intro e he
  rcases List.mem_append.1 he with he | he
  · obtain ⟨item, hi, rfl⟩ := List.mem_map.1 he
    intro hp
    exact absurd ((hs.exact.good item hi).exact.symm.trans hp) Bool.false_ne_true
  · obtain ⟨item, hi, rfl⟩ := List.mem_map.1 he
    exact fun _ => ⟨_, (hs.patterns.good item hi).compile⟩

/-- Merging is storing the entries one after the other. -/
theorem merge_eq (s : Store) {other : Store} (h : ∀ e ∈ other.toEntries, e.Compiles) :
    s.merge other = .ok (s.withItems other.toEntries) := by
  unfold merge
  unfold toEntries at h ⊢
  generalize other.entries = ps at h ⊢
  induction ps generalizing s with
  | nil => rfl
  | cons p ps ih =>
    obtain ⟨name, record⟩ := p
    obtain ⟨he, hes⟩ := List.forall_mem_cons.1 h
    have hadd : s.add name record = .ok (s.withItems [⟨name, record⟩]) :=
      add_eq (e := ⟨name, record⟩) he
    rw [List.foldlM_cons, List.map_cons, withItems_cons, ← ih _ hes]
    dsimp only
    rw [hadd]
    rfl

/-- Storing entries on their own and merging the store is storing them one after the other. -/
theorem merge_withItems {s : Store} (hs : s.Sound) {es : List Entry} (h : ∀ e ∈ es, e.Loadable) :
    s.merge (({} : Store).withItems es) = .ok (s.withItems es) := by
  -- The entries of the store on its own are its items, and adding these is associative.
  have hown : (({} : Store).withItems es).Sound := sound_empty.withItems h
  rw [merge_eq s (compiles_toEntries hown), withItems, (items_toEntries hown).1,
    (items_toEntries hown).2]
  have hexact := (collects_addKeyed overlays_exact).addEach_assoc hs.exact sound_empty.exact
    (good_exactItems h)
  have hpatterns := (collects_addKeyed overlays_pattern).addEach_assoc hs.patterns
    sound_empty.patterns (good_patternItems h)
  simp only [withItems, ← hexact, ← hpatterns]
  rfl

end Store

/-! ## Documents -/

/-- The entries of a userlist are stored in the masterlist's store as they would be stored if they
stood at the end of the masterlist. A userlist that cannot be used leaves the masterlist's store as
it is. This is so however the values of documents are read from their texts. -/
theorem load_eq_ofText (read : Reader) :
    (∀ {masterlist userlist both : List Char} {ms us : List Entry},
      entries? read masterlist = some ms → entries? read userlist = some us →
      entries? read both = some (ms ++ us) → (∀ e ∈ ms ++ us, e.Loadable) →
      ∃ s, (load masterlist (some userlist) read).map Prod.fst = .ok s ∧
        ∀ source, (Store.ofText source both read).map Prod.fst = .ok s) ∧
    ∀ (masterlist userlist : List Char) (fault : DocumentFault),
      Store.ofText "userlist" userlist read = .error fault →
      (load masterlist (some userlist) read).map Prod.fst =
        ((Store.ofText "masterlist" masterlist read).map Prod.fst).mapError .document := by
  constructor
  · intro masterlist userlist both ms us hm hu hb hgood
    obtain ⟨hgm, hgu⟩ := List.forall_mem_append.1 hgood
    have hms : ({} : Store).addAll ms = ({} : Store).withItems ms :=
      Store.addAll_eq (fun e he => (hgm e he).compiles) _
    have hus : ∀ s : Store, s.addAll us = s.withItems us :=
      Store.addAll_eq fun e he => (hgu e he).compiles
    have hmerge : (({} : Store).addAll ms).merge (({} : Store).addAll us) =
        .ok (({} : Store).addAll (ms ++ us)) := by
      rw [Store.addAll_append, hms, hus, hus]
      exact Store.merge_withItems (Store.sound_empty.withItems hgm) hgu
    obtain ⟨events, hmasterlist⟩ := ofText_of_entries hm "masterlist"
    obtain ⟨more, huserlist⟩ := ofText_of_entries hu "userlist"
    refine ⟨({} : Store).addAll (ms ++ us), ?_, fun source => ?_⟩
    · simp only [load, hmasterlist, huserlist, hmerge]
      rfl
    · obtain ⟨_, hboth⟩ := ofText_of_entries hb source
      rw [hboth]
      rfl
  · intro masterlist userlist fault hu
    cases hm : Store.ofText "masterlist" masterlist read with
    | error f =>
      simp only [load, hm]
      rfl
    | ok p =>
      simp only [load, hm, hu]
      rfl

/-- A userlist that names a plugin of the masterlist twice, in another case: once with a file in
place of a bare reference, and once with a further file. And one that is no map. -/
theorem load_eq_ofText_repeated :
    let masterlist := "plugins:\n- name: A\n  req: [B]".toList
    let userlist := "plugins:\n- name: a\n  req:\n  - name: B\n- name: A\n  req: [C]".toList
    let both := masterlist ++ "\n- name: a\n  req:\n  - name: B\n- name: A\n  req: [C]".toList
    let ms : List Entry := [⟨"A", { requirements := some [.bare "B"] }⟩]
    let us : List Entry := [⟨"a", { requirements := some [.entry { name := "B" }] }⟩,
      ⟨"A", { requirements := some [.bare "C"] }⟩]
    (entries? Yaml.read masterlist = some ms ∧ entries? Yaml.read userlist = some us ∧
      entries? Yaml.read both = some (ms ++ us) ∧ ∀ e ∈ ms ++ us, e.Loadable) ∧
      (∃ s, (load masterlist (some userlist)).map Prod.fst = .ok s ∧
        ∀ source, (Store.ofText source both).map Prod.fst = .ok s) ∧
      Store.ofText "userlist" "A".toList = .error (.noPlugins "userlist") ∧
      (load masterlist (some "A".toList)).map Prod.fst =
        ((Store.ofText "masterlist" masterlist).map Prod.fst).mapError .document := by
  intro masterlist userlist both ms us
  have hm : entries? Yaml.read masterlist = some ms := by decide +kernel
  have hu : entries? Yaml.read userlist = some us := by decide +kernel
  have hb : entries? Yaml.read both = some (ms ++ us) := by decide +kernel
  have hplain : ∀ e ∈ ms ++ us, isPattern e.name = false ∧ e.record.Distinct := by decide +kernel
  have hgood : ∀ e ∈ ms ++ us, e.Loadable := by
    intro e he
    obtain ⟨hname, hdistinct⟩ := hplain e he
    exact ⟨fun hp => absurd (hname.symm.trans hp) Bool.false_ne_true, hdistinct⟩
  have hfault : Store.ofText "userlist" "A".toList = .error (.noPlugins "userlist") := by
    decide +kernel
  exact ⟨⟨hm, hu, hb, hgood⟩, (load_eq_ofText Yaml.read).1 hm hu hb hgood, hfault,
    (load_eq_ofText Yaml.read).2 masterlist "A".toList _ hfault⟩

end PluginAudit.Metadata
