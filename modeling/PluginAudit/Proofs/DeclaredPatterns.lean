import PluginAudit.Proofs.OrderedMaps
import PluginAudit.Proofs.PatternWays
import PluginAudit.Proofs.StoreMerging

/-!
# Which plugins have metadata

Patterns are kept under their text in lower case, but a pattern means what its text means as it was
written: `\D` and `\d` differ by their case alone. So of all the patterns with one text in lower
case it is the first spelling that decides which plugins they are for, whatever is added later
(`patternUnder?_addAll`). A plugin has metadata if an entry has its name or if a first spelling
matches it (`lookup_isSome_iff`). A pattern is therefore found by what it matches if the first
spelling matches that too (`lookup_of_declared`), and may be lost if not (`lookup_declared_lost`).
-/

namespace PluginAudit.Metadata

/-- The pattern of an entry, if it compiles and has a certain text in lower case. -/
def Entry.patternUnder? (key : String) (e : Entry) : Option NamePattern :=
  if isPattern e.name = true ∧ Text.lowerString e.name = key then
    (NamePattern.compile e.name).toOption
  else none

/-- The pattern that a sequence of entries spells first under a text in lower case. -/
def firstSpelling? (es : List Entry) (key : String) : Option NamePattern :=
  es.findSome? (Entry.patternUnder? key)

namespace Store

/-- The pattern that a store has under a text in lower case. -/
def patternUnder? (s : Store) (key : String) : Option NamePattern :=
  (s.patterns.get? key).map (·.pattern)

/-- What adding one entry does to a store. -/
inductive Adds (s : Store) (e : Entry) : Store → Prop
  | exact (r : Record) (hname : isPattern e.name = false) :
    Adds s e { s with exact := s.exact.put (Text.lowerString e.name) r }
  | merged (r : Record) {old : PatternEntry} (hname : isPattern e.name = true)
    (hold : s.patterns.get? (Text.lowerString e.name) = some old) :
    Adds s e { s with
      patterns := s.patterns.put (Text.lowerString e.name) { old with record := r } }
  | compiled {p : NamePattern} (hname : isPattern e.name = true)
    (hold : s.patterns.get? (Text.lowerString e.name) = none)
    (hcompile : NamePattern.compile e.name = .ok p) :
    Adds s e { s with
      patterns := s.patterns.put (Text.lowerString e.name) ⟨e.name, p, e.record⟩ }
  | skipped {f : Condition.Fault} (hname : isPattern e.name = true)
    (hold : s.patterns.get? (Text.lowerString e.name) = none)
    (hcompile : NamePattern.compile e.name = .error f) : Adds s e s

theorem adds_addAll (s : Store) (e : Entry) : s.Adds e (s.addAll [e]) := by
  have hkey : isPattern (Text.lowerString e.name) = isPattern e.name :=
    Text.isPattern_lowerString e.name
  cases hname : isPattern e.name with
  | false =>
    rw [hname] at hkey
    cases hold : s.exact.get? (Text.lowerString e.name) with
    | none =>
      simp only [addAll, add, get?, set, hkey, hold, Bool.false_eq_true, if_false]
      exact .exact _ hname
    | some old =>
      simp only [addAll, add, get?, set, hkey, hold, Bool.false_eq_true, if_false]
      exact .exact _ hname
  | true =>
    rw [hname] at hkey
    cases hold : s.patterns.get? (Text.lowerString e.name) with
    | some old =>
      simp only [addAll, add, get?, set, hkey, hold, if_true, Option.map_some]
      exact .merged _ hname hold
    | none =>
      cases hcompile : NamePattern.compile e.name with
      | ok p =>
        simp only [addAll, add, get?, set, hkey, hold, hcompile, if_true, Option.map_none]
        exact .compiled hname hold hcompile
      | error f =>
        simp only [addAll, add, get?, set, hkey, hold, hcompile, if_true, Option.map_none]
        exact .skipped hname hold hcompile

variable {s t : Store} {e : Entry}

theorem Adds.patternUnder? (h : s.Adds e t) (key : String) :
    t.patternUnder? key = (s.patternUnder? key).or (e.patternUnder? key) := by
  cases h with
  | exact r hname => simp [Store.patternUnder?, Entry.patternUnder?, hname]
  | @merged r old hname hold =>
    by_cases hkey : Text.lowerString e.name = key
    · subst hkey
      simp [Store.patternUnder?, Ordered.get?_put, hold]
    · simp [Store.patternUnder?, Entry.patternUnder?, Ordered.get?_put, hkey, Ne.symm hkey]
  | @compiled p hname hold hcompile =>
    by_cases hkey : Text.lowerString e.name = key
    · subst hkey
      simp [Store.patternUnder?, Entry.patternUnder?, Ordered.get?_put, hold, hname, hcompile,
        Except.toOption]
    · simp [Store.patternUnder?, Entry.patternUnder?, Ordered.get?_put, hkey, Ne.symm hkey]
  | skipped hname hold hcompile => simp [Entry.patternUnder?, hcompile, Except.toOption]

theorem Adds.exact_isSome (h : s.Adds e t) (key : String) :
    (t.exact.get? key).isSome ↔
      (s.exact.get? key).isSome ∨ isPattern e.name = false ∧ Text.lowerString e.name = key := by
  cases h with
  | exact r hname =>
    by_cases hkey : key = Text.lowerString e.name
    · simp [Ordered.get?_put, hkey, hname]
    · simp [Ordered.get?_put, hkey, Ne.symm hkey]
  | merged r hname hold => simp [hname]
  | compiled hname hold hcompile => simp [hname]
  | skipped hname hold hcompile => simp [hname]

theorem Adds.nodup (h : s.Adds e t) (hs : s.patterns.keys.Nodup) : t.patterns.keys.Nodup := by
  cases h with
  | exact => exact hs
  | merged => exact Ordered.nodup_keys_put hs _ _
  | compiled => exact Ordered.nodup_keys_put hs _ _
  | skipped => exact hs

theorem addAll_cons (s : Store) (e : Entry) (es : List Entry) :
    s.addAll (e :: es) = (s.addAll [e]).addAll es :=
  addAll_append s [e] es

theorem patternUnder?_addAll (s : Store) (es : List Entry) (key : String) :
    (s.addAll es).patternUnder? key = (s.patternUnder? key).or (firstSpelling? es key) := by
  induction es generalizing s with
  | nil => simp [addAll, firstSpelling?]
  | cons e es ih =>
    -- The first entry has its say after the store and before the other entries.
    rw [addAll_cons, ih, (s.adds_addAll e).patternUnder? key, Option.or_assoc]
    congr 1
    cases he : e.patternUnder? key with
    | none => simp [firstSpelling?, he]
    | some p => simp [firstSpelling?, he]

theorem exact_isSome_addAll (s : Store) (es : List Entry) (key : String) :
    ((s.addAll es).exact.get? key).isSome ↔
      (s.exact.get? key).isSome ∨
        ∃ e ∈ es, isPattern e.name = false ∧ Text.lowerString e.name = key := by
  induction es generalizing s with
  | nil => simp [addAll]
  | cons e es ih =>
    rw [addAll_cons, ih, (s.adds_addAll e).exact_isSome key]
    simp only [List.mem_cons, exists_eq_or_imp, or_assoc]

theorem nodup_addAll {s : Store} (hs : s.patterns.keys.Nodup) (es : List Entry) :
    (s.addAll es).patterns.keys.Nodup := by
  induction es generalizing s with
  | nil => exact hs
  | cons e es ih =>
    rw [addAll_cons]
    exact ih ((s.adds_addAll e).nodup hs)

/-- A plugin has metadata if there is a record under its name or under a pattern that matches it. -/
theorem lookup_isSome {s : Store} (h : s.patterns.keys.Nodup) (plugin : String) :
    (s.lookup plugin).isSome ↔
      (s.exact.get? (Text.lowerString plugin)).isSome ∨
        ∃ key p, s.patternUnder? key = some p ∧ p.accepts (Text.lowerString plugin) = true := by
  cases hexact : s.exact.get? (Text.lowerString plugin) with
  | some r => simp [lookup, hexact]
  | none =>
    have hfound : (s.lookup plugin).isSome ↔
        ∃ item ∈ s.patterns, item.2.pattern.accepts (Text.lowerString plugin) = true := by
      simp only [lookup, hexact, Option.isSome_map, List.find?_isSome]
    rw [hfound]
    constructor
    · rintro ⟨⟨key, old⟩, hmem, haccepts⟩
      have hold : s.patterns.get? key = some old := (Ordered.get?_eq_some_iff h).2 hmem
      exact .inr ⟨key, old.pattern, by rw [patternUnder?, hold]; rfl, haccepts⟩
    · rintro (hnone | ⟨key, p, hp, haccepts⟩)
      · cases hnone
      · obtain ⟨old, hold, rfl⟩ := Option.map_eq_some_iff.1 hp
        exact ⟨(key, old), (Ordered.get?_eq_some_iff h).1 hold, haccepts⟩

end Store

/-- After a sequence of entries a plugin has metadata if one of them has its name or if the first
spelling of one of the patterns matches it. -/
theorem lookup_isSome_iff (es : List Entry) (plugin : String) :
    ((({} : Store).addAll es).lookup plugin).isSome ↔
      (∃ e ∈ es, isPattern e.name = false ∧
        Text.lowerString e.name = Text.lowerString plugin) ∨
      ∃ key p, firstSpelling? es key = some p ∧
        p.accepts (Text.lowerString plugin) = true := by
  have hkeys : (({} : Store).addAll es).patterns.keys.Nodup :=
    Store.nodup_addAll (s := {}) List.nodup_nil es
  have hexact : ∀ key, ((({} : Store).addAll es).exact.get? key).isSome ↔
      ∃ e ∈ es, isPattern e.name = false ∧ Text.lowerString e.name = key := by
    intro key
    rw [Store.exact_isSome_addAll]
    exact or_iff_right (by simp [Ordered.get?])
  have hpattern : ∀ key, (({} : Store).addAll es).patternUnder? key = firstSpelling? es key := by
    intro key
    exact Store.patternUnder?_addAll {} es key
  simp only [Store.lookup_isSome hkeys, hexact, hpattern]

theorem firstSpelling?_isSome {es : List Entry} {e : Entry} {p : NamePattern} (he : e ∈ es)
    (hpattern : isPattern e.name = true) (hcompile : NamePattern.compile e.name = .ok p) :
    (firstSpelling? es (Text.lowerString e.name)).isSome := by
  have hunder : e.patternUnder? (Text.lowerString e.name) = some p := by
    simp [Entry.patternUnder?, hpattern, hcompile, Except.toOption]
  exact List.findSome?_isSome_iff.2 ⟨e, he, by rw [hunder]; rfl⟩

/-- A plugin that a pattern matches has metadata, wherever in a sequence of entries the pattern
stands, provided that the first spelling of the pattern matches the plugin too. -/
theorem lookup_of_declared {es : List Entry} {e : Entry} {p : NamePattern} {plugin : String}
    (he : e ∈ es) (hpattern : isPattern e.name = true)
    (hcompile : NamePattern.compile e.name = .ok p)
    (haccepts : p.accepts (Text.lowerString plugin) = true)
    (hfirst : ∀ q, firstSpelling? es (Text.lowerString e.name) = some q →
      p.accepts (Text.lowerString plugin) = true → q.accepts (Text.lowerString plugin) = true) :
    ∃ r, (({} : Store).addAll es).lookup plugin = some r := by
  obtain ⟨q, hq⟩ := Option.isSome_iff_exists.1 (firstSpelling?_isSome he hpattern hcompile)
  have hfound := (lookup_isSome_iff es plugin).2 (.inr ⟨_, q, hq, hfirst q hq haccepts⟩)
  exact Option.isSome_iff_exists.1 hfound

/-- A pattern that is spelled in two ways that mean the same. -/
theorem lookup_of_declared_twice :
    let first : Entry := ⟨"Mod\\D\\.esp", {}⟩
    let second : Entry := ⟨"mod\\D\\.ESP", {}⟩
    ∃ p, second ∈ [first, second] ∧ isPattern second.name = true ∧
      NamePattern.compile second.name = .ok p ∧
      p.accepts (Text.lowerString "ModX.esp") = true ∧
      (∀ q, firstSpelling? [first, second] (Text.lowerString second.name) = some q →
        p.accepts (Text.lowerString "ModX.esp") = true →
        q.accepts (Text.lowerString "ModX.esp") = true) ∧
      ∃ r, (({} : Store).addAll [first, second]).lookup "ModX.esp" = some r := by
  intro first second
  obtain ⟨p, hp, haccepts⟩ : ∃ p, NamePattern.compile second.name = .ok p ∧
      p.accepts (Text.lowerString "ModX.esp") = true :=
    NamePattern.exists_compile (by decide +kernel)
  have hmem : second ∈ [first, second] := by decide +kernel
  have hpattern : isPattern second.name = true := by decide +kernel
  have hspelling : (firstSpelling? [first, second] (Text.lowerString second.name)).all
      (·.accepts (Text.lowerString "ModX.esp")) = true := by decide +kernel
  have hfirst : ∀ q, firstSpelling? [first, second] (Text.lowerString second.name) = some q →
      p.accepts (Text.lowerString "ModX.esp") = true →
      q.accepts (Text.lowerString "ModX.esp") = true := by
    intro q hq _
    rw [hq] at hspelling
    exact hspelling
  exact ⟨p, hmem, hpattern, hp, haccepts, hfirst,
    lookup_of_declared hmem hpattern hp haccepts hfirst⟩

/-- A pattern for plugins whose names have a digit, and one for those whose names have none: the
second is lost, being in lower case the text of the first. -/
theorem lookup_declared_lost :
    ¬∀ (es : List Entry) (e : Entry) (p : NamePattern) (plugin : String), e ∈ es →
      isPattern e.name = true → NamePattern.compile e.name = .ok p →
      (({} : Store).addAll es).exact.get? (Text.lowerString plugin) = none →
      p.accepts (Text.lowerString plugin) = true →
      ∃ r, (({} : Store).addAll es).lookup plugin = some r := by
  intro h
  let digit : Entry := ⟨"Mod\\d\\.esp", {}⟩
  let other : Entry := ⟨"Mod\\D\\.esp", {}⟩
  obtain ⟨p, hp, haccepts⟩ : ∃ p, NamePattern.compile other.name = .ok p ∧
      p.accepts (Text.lowerString "modx.esp") = true :=
    NamePattern.exists_compile (by decide +kernel)
  have hmem : other ∈ [digit, other] := by decide +kernel
  have hpattern : isPattern other.name = true := by decide +kernel
  have hexact : (({} : Store).addAll [digit, other]).exact.get? (Text.lowerString "modx.esp") =
      none := by decide +kernel
  have hlost : (({} : Store).addAll [digit, other]).lookup "modx.esp" = none := by decide +kernel
  obtain ⟨r, hr⟩ := h [digit, other] other p "modx.esp" hmem hpattern hp hexact haccepts
  exact absurd (hr.symm.trans hlost) (Option.some_ne_none r)

end PluginAudit.Metadata
