import PluginAudit.Proofs.DeclaredPatterns

/-!
# Entries that are skipped

An entry of a document is skipped if it is invalid, or if its name is a pattern that does not
compile and no entry before has already been stored under that text in lower case (`skip?`). What is
skipped leaves no trace: the store is the one of the document without it, and all that is left of it
is one report, in the order of the entries (`ofText_skips`).
-/

namespace PluginAudit.Metadata

/-- Why an entry is skipped. -/
inductive Skip where
  /-- It is not of the expected form. -/
  | invalid
  /-- Its name is a pattern that does not compile. -/
  | refused (name : String) (fault : Condition.Fault)
  deriving Repr, DecidableEq

/-- How it is reported that the entry of number `index` is skipped. -/
def Skip.report (source : String) (index : Nat) : Skip → Log.Event
  | invalid => .invalidEntry source index
  | refused name fault => .skippedEntry source name (.condition fault)

/-- Whether an entry is skipped after others. A pattern is compiled only if none of the entries
before is a pattern that compiles and has its text in lower case. -/
def skip? (before : List Value) (v : Value) : Option Skip :=
  match Entry.ofValue? v with
  | none => some .invalid
  | some e =>
    if isPattern e.name = true ∧
        firstSpelling? (before.filterMap Entry.ofValue?) (Text.lowerString e.name) = none then
      match NamePattern.compile e.name with
      | .ok _ => none
      | .error f => some (.refused e.name f)
    else none

/-- The numbers of the entries that are skipped, in order, with the reason for each. -/
def skips (items : List Value) : List (Nat × Skip) :=
  items.zipIdx.filterMap fun (v, i) => (skip? (items.take i) v).map (i, ·)

/-- The entries that are not skipped. -/
def kept (items : List Value) : List Value :=
  (items.zipIdx.filter fun (v, i) => (skip? (items.take i) v).isNone).map Prod.fst

/-- The reports on the entries that are skipped. -/
def skipReports (source : String) (items : List Value) : List Log.Event :=
  (skips items).map fun (i, skip) => skip.report source i

/-- The list of plugins at the top of a document, if there is one. -/
def plugins? (document : Value) : Option (List Value) :=
  (document.field? "plugins").bind Value.list?

/-- The store of a sequence of entries. -/
def storeOf (items : List Value) : Store := ({} : Store).addAll (items.filterMap Entry.ofValue?)

variable {items : List Value} {v : Value}

/-! ## One more entry -/

theorem take_of_mem_zipIdx {w : Value} {i : Nat} (h : (w, i) ∈ items.zipIdx) :
    (items ++ [v]).take i = items.take i := by
  have hi : i < 0 + items.length := List.snd_lt_add_of_mem_zipIdx h
  exact List.take_append_of_le_length (by omega)

theorem take_length_append : (items ++ [v]).take items.length = items := by
  rw [List.take_append_of_le_length (Nat.le_refl _), List.take_length]

theorem skips_concat :
    skips (items ++ [v]) = skips items ++ ((skip? items v).map (items.length, ·)).toList := by
  rw [skips, List.zipIdx_append, List.filterMap_append]
  congr 1
  · refine List.filterMap_congr fun ⟨w, i⟩ hmem => ?_
    dsimp only
    rw [take_of_mem_zipIdx hmem]
  · simp only [List.zipIdx_singleton, Nat.zero_add, List.filterMap_cons, take_length_append]
    cases skip? items v <;> rfl

theorem kept_concat :
    kept (items ++ [v]) = kept items ++ if (skip? items v).isNone then [v] else [] := by
  rw [kept, List.zipIdx_append, List.filter_append, List.map_append]
  congr 1
  · congr 1
    refine List.filter_congr fun ⟨w, i⟩ hmem => ?_
    dsimp only
    rw [take_of_mem_zipIdx hmem]
  · simp only [List.zipIdx_singleton, Nat.zero_add, List.filter_cons, take_length_append]
    cases skip? items v <;> rfl

theorem skipReports_concat (source : String) :
    skipReports source (items ++ [v]) =
      skipReports source items ++ ((skip? items v).map (·.report source items.length)).toList := by
  rw [skipReports, skips_concat, List.map_append]
  cases skip? items v <;> rfl

theorem storeOf_append (before after : List Value) :
    storeOf (before ++ after) = (storeOf before).addAll (after.filterMap Entry.ofValue?) := by
  rw [storeOf, List.filterMap_append, Store.addAll_append]
  rfl

/-! ## What makes an entry skipped -/

theorem firstSpelling?_eq_none {key : String} :
    firstSpelling? (items.filterMap Entry.ofValue?) key = none ↔
      (storeOf items).patterns.get? key = none := by
  have hpattern : (storeOf items).patternUnder? key =
      firstSpelling? (items.filterMap Entry.ofValue?) key :=
    Store.patternUnder?_addAll {} _ key
  rw [← hpattern, Store.patternUnder?, Option.map_eq_none_iff]

/-- Whether an entry is skipped depends only on what is stored before. -/
theorem skip?_congr {before before' : List Value} (h : storeOf before = storeOf before')
    (v : Value) : skip? before v = skip? before' v := by
  unfold skip?
  simp only [firstSpelling?_eq_none, h]

/-- An entry fails to be stored if it is named by a pattern of which nothing is stored and which
does not compile. -/
theorem Store.add_eq_error_iff {s : Store} {e : Entry} {f : Condition.Fault} :
    s.add e.name e.record = .error f ↔
      isPattern e.name = true ∧ s.patterns.get? (Text.lowerString e.name) = none ∧
        NamePattern.compile e.name = .error f := by
  have hkey : isPattern (Text.lowerString e.name) = isPattern e.name :=
    Text.isPattern_lowerString e.name
  cases hname : isPattern e.name with
  | false =>
    rw [hname] at hkey
    cases hold : s.exact.get? (Text.lowerString e.name) <;> simp [add, get?, set, hkey, hold]
  | true =>
    rw [hname] at hkey
    cases hold : s.patterns.get? (Text.lowerString e.name) with
    | some old => simp [add, get?, set, hkey, hold]
    | none =>
      cases hcompile : NamePattern.compile e.name <;> simp [add, get?, set, hkey, hold, hcompile]

theorem skip?_invalid (hv : Entry.ofValue? v = none) (before : List Value) :
    skip? before v = some .invalid := by
  rw [skip?, hv]

theorem skip?_eq_some_iff {e : Entry} (hv : Entry.ofValue? v = some e) (before : List Value)
    (reason : Skip) :
    skip? before v = some reason ↔
      ∃ f, (storeOf before).add e.name e.record = .error f ∧ reason = .refused e.name f := by
  simp only [Store.add_eq_error_iff, ← firstSpelling?_eq_none]
  unfold skip?
  rw [hv]
  dsimp only
  split
  · next h =>
    cases hcompile : NamePattern.compile e.name with
    | ok p => simp
    | error f => simp [h, eq_comm]
  · next h =>
    refine ⟨fun hs => (by cases hs), ?_⟩
    rintro ⟨f, ⟨hname, hnone, -⟩, -⟩
    exact absurd ⟨hname, hnone⟩ h

/-! ## Storing the entries of a document -/

theorem storeEntries_append (source : String) (s : Store) (index : Nat) (vs ws : List Value) :
    storeEntries source s index (vs ++ ws) =
      let first := storeEntries source s index vs
      let second := storeEntries source first.1 (index + vs.length) ws
      (second.1, first.2 ++ second.2) := by
  induction vs generalizing s index with
  | nil => rfl
  | cons v vs ih =>
    have hindex : index + (v :: vs).length = index + 1 + vs.length := by
      rw [List.length_cons]
      omega
    rw [List.cons_append, storeEntries, storeEntries, hindex]
    cases Entry.ofValue? v with
    | none =>
      dsimp only
      rw [ih]
      rfl
    | some e =>
      dsimp only
      cases s.add e.name e.record with
      | ok t => exact ih t (index + 1)
      | error f =>
        dsimp only
        rw [ih]
        rfl

/-- One more entry is stored, or it is reported and leaves no trace. -/
theorem storeEntries_singleton (source : String) (items : List Value) (v : Value) :
    storeEntries source (storeOf items) items.length [v] =
      (storeOf (items ++ [v]), ((skip? items v).map (·.report source items.length)).toList) := by
  rw [storeOf_append, ← storeEntries_fst source (storeOf items) items.length]
  unfold storeEntries
  cases hv : Entry.ofValue? v with
  | none =>
    rw [skip?_invalid hv]
    rfl
  | some e =>
    have hskip := skip?_eq_some_iff hv items
    dsimp only
    cases hadd : (storeOf items).add e.name e.record with
    | ok t =>
      have hnone : skip? items v = none := by
        refine Option.eq_none_iff_forall_ne_some.2 fun reason h => ?_
        obtain ⟨f, hf, -⟩ := (hskip reason).1 h
        rw [hadd] at hf
        cases hf
      rw [hnone]
      rfl
    | error f =>
      rw [(hskip _).2 ⟨f, hadd, rfl⟩]
      rfl

theorem storeEntries_eq (source : String) (items : List Value) :
    storeEntries source {} 0 items = (storeOf items, skipReports source items) := by
  induction items using List.reverseRecOn with
  | nil => rfl
  | append_singleton items v ih =>
    rw [storeEntries_append, ih]
    dsimp only
    rw [Nat.zero_add, storeEntries_singleton, skipReports_concat]

theorem storeOf_concat_of_skip {reason : Skip} (h : skip? items v = some reason) :
    storeOf (items ++ [v]) = storeOf items := by
  rw [storeOf_append]
  cases hv : Entry.ofValue? v with
  | none => rw [List.filterMap_cons_none hv]; rfl
  | some e =>
    obtain ⟨f, hf, -⟩ := (skip?_eq_some_iff hv items reason).1 h
    rw [List.filterMap_cons_some hv, Store.addAll, hf]
    rfl

/-! ## Leaving the skipped entries out -/

theorem storeOf_kept (items : List Value) : storeOf (kept items) = storeOf items := by
  induction items using List.reverseRecOn with
  | nil => rfl
  | append_singleton items v ih =>
    rw [kept_concat]
    cases hskip : skip? items v with
    | none =>
      rw [Option.isNone_none, if_pos rfl, storeOf_append, ih, ← storeOf_append]
    | some reason =>
      rw [Option.isNone_some, if_neg Bool.false_ne_true, List.append_nil, ih,
        storeOf_concat_of_skip hskip]

theorem skips_kept (items : List Value) : skips (kept items) = [] := by
  induction items using List.reverseRecOn with
  | nil => rfl
  | append_singleton items v ih =>
    rw [kept_concat]
    cases hskip : skip? items v with
    | none =>
      have hkept : skip? (kept items) v = none := by
        rw [skip?_congr (storeOf_kept items), hskip]
      rw [Option.isNone_none, if_pos rfl, skips_concat, ih, hkept]
      rfl
    | some reason =>
      rw [Option.isNone_some, if_neg Bool.false_ne_true, List.append_nil, ih]

theorem ofValue_eq {document : Value} (h : plugins? document = some items) (source : String) :
    Store.ofValue source document = .ok (storeOf items, skipReports source items ++
      [.loaded source (storeOf items).exact.length (storeOf items).patterns.length]) := by
  rw [plugins?] at h
  rw [Store.ofValue, h]
  dsimp only
  rw [storeEntries_eq]

/-- A document with a list of plugins always gives a store, and a document that has the list without
the skipped entries gives the same, with nothing to report. An entry is skipped exactly if it is
invalid or cannot be added to the store of the entries before, and there is one warning for each, in
order. -/
theorem ofText_skips {read : Reader} {text : List Char} {document : Value}
    (hread : read text = .ok document) (hitems : plugins? document = some items)
    (source : String) :
    (∃ s, Store.ofText source text read = .ok (s, skipReports source items ++
        [.loaded source s.exact.length s.patterns.length]) ∧
      ∀ document' source', plugins? document' = some (kept items) →
        Store.ofValue source' document' =
          .ok (s, [.loaded source' s.exact.length s.patterns.length])) ∧
    (∀ before v reason, skip? before v = some reason ↔
      match Entry.ofValue? v with
      | none => reason = .invalid
      | some e => ∃ f, (storeEntries source {} 0 before).1.add e.name e.record = .error f ∧
          reason = .refused e.name f) ∧
    ∀ event ∈ skipReports source items, event.level = .warn := by
  refine ⟨⟨storeOf items, ?_, fun document' source' h => ?_⟩, fun before v reason => ?_,
    fun event hevent => ?_⟩
  · rw [Store.ofText, hread]
    exact ofValue_eq hitems source
  · rw [ofValue_eq h source', storeOf_kept, skipReports, skips_kept]
    rfl
  · rw [storeEntries_eq]
    cases hv : Entry.ofValue? v with
    | none =>
      rw [skip?_invalid hv, Option.some_inj]
      exact eq_comm
    | some e => exact skip?_eq_some_iff hv before reason
  · obtain ⟨⟨i, skip⟩, -, rfl⟩ := List.mem_map.1 hevent
    cases skip <;> rfl

/-- A document with a pattern, what is no entry, a pattern that does not compile, and a spelling of
the first pattern that would not compile by itself. -/
theorem ofText_skips_mixed :
    let text := "plugins:\n- name: (?<a>)\\k<a>\n- 5\n- name: (*\n- name: (?<a>)\\k<A>"
    ∃ document items, Yaml.read text.toList = .ok document ∧ plugins? document = some items ∧
      skips items = [(1, .invalid), (2, .refused "(*" (.invalidPattern "(*"))] ∧
      ∃ s, Store.ofText "list" text.toList = .ok (s, skipReports "list" items ++
          [.loaded "list" s.exact.length s.patterns.length]) ∧
        Store.ofValue "list" (.map [("plugins", .list (kept items))]) =
          .ok (s, [.loaded "list" s.exact.length s.patterns.length]) := by
  intro text
  have hskips : (Yaml.read text.toList).map (fun document => (plugins? document).map skips) =
      .ok (some [(1, .invalid), (2, .refused "(*" (.invalidPattern "(*"))]) := by
    decide +kernel
  cases hread : Yaml.read text.toList with
  | error f =>
    rw [hread] at hskips
    cases hskips
  | ok document =>
    rw [hread] at hskips
    obtain ⟨items, hitems, hskips⟩ := Option.map_eq_some_iff.1 (Except.ok.inj hskips)
    obtain ⟨⟨s, hs, hsame⟩, -⟩ := ofText_skips hread hitems "list"
    exact ⟨document, items, rfl, hitems, hskips, s, hs, hsame _ "list" rfl⟩

end PluginAudit.Metadata
