import Mathlib.Data.List.Induction
import Mathlib.Data.List.Find
import PluginAudit.Proofs.DeclaredPatterns

/-!
# What a store says of its history

A store is made by writing records under names, one after the other, and by merging other stores
into it that were made likewise; a write that fails is forgotten. What it says in the end is
described from the list of the writes alone: the names in the order in which they were first
written, the first spelling of each, and the records written under it since the last write that
replaced what was there.

`Refines` is that description and `Refines.write` says that a write keeps it. A merge is a row of
writes that do not fail (`Refines.exists_merge`), and so every store says what its history says
(`refines_of_steps`).
-/

namespace PluginAudit.Metadata

/-! ## Writes -/

/-- A record stored under a name: in place of any record there, or merged into it. -/
structure Write where
  name : String
  record : Record
  /-- Whether any record there is replaced. -/
  replaces : Bool
  deriving Repr, DecidableEq, Inhabited

namespace Write

/-- What a write is stored under. -/
def key (w : Write) : String := Text.lowerString w.name

/-- The record that a write leaves where there was perhaps another. -/
def onto (w : Write) (old? : Option Record) : Record :=
  match w.replaces, old? with
  | false, some old => old.merge w.record
  | _, _ => w.record

end Write

def Store.write (s : Store) (w : Write) : Except Condition.Fault Store :=
  if w.replaces then s.set w.name w.record else s.add w.name w.record

/-- A step in making a store. -/
inductive Step where
  | write (w : Write)
  /-- Another store is made and merged into this one. -/
  | merge (steps : List Step)

/-- A store in the making, and the writes that succeeded so far. -/
structure Making where
  store : Store := {}
  writes : List Write := []

/-- The entries of a store as writes to another. -/
def Store.toWrites (s : Store) : List Write :=
  s.entries.map fun (name, record) => ⟨name, record, false⟩

namespace Making

mutual

/-- What is made by one more step; a step that fails changes nothing. -/
def step (m : Making) : Step → Making
  | .write w =>
    match m.store.write w with
    | .ok s => ⟨s, m.writes ++ [w]⟩
    | .error _ => m
  | .merge steps =>
    let other := ({} : Making).steps steps
    match m.store.merge other.store with
    | .ok s => ⟨s, m.writes ++ other.store.toWrites⟩
    | .error _ => m

/-- What is made by steps, one after the other. -/
def steps (m : Making) : List Step → Making
  | [] => m
  | st :: sts => (m.step st).steps sts

end

end Making

/-! ## What writes say -/

/-- The names that were written, in lower case and in the order in which they came first. -/
def keysOf (ws : List Write) : List String := (ws.map Write.key).eraseDups

/-- The name that was written first under a key. -/
def spelling? (ws : List Write) (key : String) : Option String :=
  (ws.find? (·.key = key)).map (·.name)

/-- The records of writes from the last one on that replaced what was there. -/
def recordsSince (ws : List Write) : List Record :=
  ws.foldl (fun rs w => if w.replaces then [w.record] else rs ++ [w.record]) []

/-- The records under a key merged from left to right. -/
def recordUnder (ws : List Write) (key : String) : Option Record :=
  match recordsSince (ws.filter (·.key = key)) with
  | [] => none
  | r :: rs => some (rs.foldl Record.merge r)

/-- The record under an exact name in lower case. -/
def exactRecord? (ws : List Write) (key : String) : Option Record :=
  if isPattern key then none else recordUnder ws key

/-- Whether the first spelling of a pattern matches a name. -/
def spellingAccepts (ws : List Write) (name key : String) : Bool :=
  ((spelling? ws key).bind fun text => (NamePattern.compile text).toOption).any (·.accepts name)

/-- The first of the patterns, in the order in which they came first, that matches a name. -/
def firstMatch? (ws : List Write) (name : String) : Option String :=
  ((keysOf ws).filter (isPattern ·)).find? (spellingAccepts ws name)

/-- A store says what its writes say. -/
structure Refines (s : Store) (ws : List Write) : Prop where
  /-- Exact names are in lower case and no patterns. -/
  exactKeys : s.exact.keys = (keysOf ws).filter (!isPattern ·)
  patternKeys : s.patterns.keys = (keysOf ws).filter (isPattern ·)
  lower : ∀ key ∈ keysOf ws, Text.lowerString key = key
  /-- A pattern has the spelling that came first, and is compiled from it. -/
  spelled : ∀ key e, s.patterns.get? key = some e →
    spelling? ws key = some e.source ∧ NamePattern.compile e.source = .ok e.pattern
  exactRecord : ∀ key, s.exact.get? key = exactRecord? ws key
  patternRecord : ∀ key, isPattern key = true →
    (s.patterns.get? key).map (·.record) = recordUnder ws key

/-! ## One more write -/

theorem keysOf_concat (ws : List Write) (w : Write) :
    keysOf (ws ++ [w]) = if w.key ∈ keysOf ws then keysOf ws else keysOf ws ++ [w.key] := by
  have hmem : w.key ∈ keysOf ws ↔ w.key ∈ ws.map Write.key := List.mem_eraseDups
  simp only [hmem]
  exact (congrArg List.eraseDups List.map_append).trans (eraseDups_concat _ _)

/-- One more write adds its key to the keys of a kind if it is of that kind and new. -/
theorem filter_keysOf_concat (p : String → Bool) (ws : List Write) (w : Write) :
    (keysOf (ws ++ [w])).filter (p ·) =
      if p w.key = true ∧ w.key ∉ keysOf ws then (keysOf ws).filter (p ·) ++ [w.key]
      else (keysOf ws).filter (p ·) := by
  rw [keysOf_concat]
  by_cases hnew : w.key ∈ keysOf ws
  · rw [if_pos hnew, if_neg fun h => h.2 hnew]
  · rw [if_neg hnew, List.filter_append]
    cases hp : p w.key with
    | true => rw [if_pos ⟨rfl, hnew⟩, List.filter_cons_of_pos hp, List.filter_nil]
    | false =>
      have hneg : ¬ p w.key = true := by simp [hp]
      rw [if_neg fun h => Bool.false_ne_true h.1, List.filter_cons_of_neg hneg, List.filter_nil,
        List.append_nil]

theorem mem_keysOf {ws : List Write} {key : String} : key ∈ keysOf ws ↔ ∃ w ∈ ws, w.key = key := by
  rw [keysOf, List.mem_eraseDups, List.mem_map]

theorem nodup_keysOf (ws : List Write) : (keysOf ws).Nodup := by
  induction ws using List.reverseRecOn with
  | nil => exact List.nodup_nil
  | append_singleton ws w ih =>
    rw [keysOf_concat]
    split
    · exact ih
    next hnew =>
      rw [← List.concat_eq_append]
      exact (List.nodup_concat _ _).2 ⟨hnew, ih⟩

theorem spelling?_concat (ws : List Write) (w : Write) (key : String) :
    spelling? (ws ++ [w]) key =
      (spelling? ws key).or (if w.key = key then some w.name else none) := by
  unfold spelling?
  rw [List.find?_append]
  by_cases h : w.key = key
  · cases ws.find? (·.key = key) <;> simp [h]
  · cases ws.find? (·.key = key) <;> simp [h]

theorem isSome_spelling? {ws : List Write} {key : String} :
    (spelling? ws key).isSome ↔ key ∈ keysOf ws := by
  rw [spelling?, Option.isSome_map, List.find?_isSome, mem_keysOf]
  simp

theorem recordsSince_concat (ws : List Write) (w : Write) :
    recordsSince (ws ++ [w]) =
      if w.replaces then [w.record] else recordsSince ws ++ [w.record] :=
  List.foldl_concat _ _ _ _

theorem recordUnder_concat (ws : List Write) (w : Write) (key : String) :
    recordUnder (ws ++ [w]) key =
      if key = w.key then some (w.onto (recordUnder ws w.key)) else recordUnder ws key := by
  unfold recordUnder
  rw [List.filter_append]
  by_cases h : key = w.key
  · subst h
    rw [if_pos rfl, List.filter_cons_of_pos (by simp), List.filter_nil, recordsSince_concat]
    cases hr : w.replaces with
    | true => simp [Write.onto, hr]
    | false =>
      cases recordsSince (ws.filter (·.key = w.key)) with
      | nil => simp [Write.onto, hr]
      | cons r rs => simp [Write.onto, hr]
  · rw [if_neg h, List.filter_cons_of_neg (by simpa using Ne.symm h), List.filter_nil,
      List.append_nil]

theorem Write.isPattern_key (w : Write) : isPattern w.key = isPattern w.name :=
  Text.isPattern_lowerString w.name

namespace Store

theorem set_eq (s : Store) (w : Write) (r : Record) :
    s.set w.name r =
      if isPattern w.key then
        match s.patterns.get? w.key with
        | some e => .ok { s with patterns := s.patterns.put w.key { e with record := r } }
        | none => (NamePattern.compile w.name).map fun p =>
          { s with patterns := s.patterns.put w.key ⟨w.name, p, r⟩ }
      else .ok { s with exact := s.exact.put w.key r } := by
  unfold set
  simp only [← Write.key.eq_def]
  cases isPattern w.key with
  | false => rfl
  | true =>
    cases s.patterns.get? w.key with
    | some e => rfl
    | none => cases NamePattern.compile w.name <;> rfl

/-- The record that a store has under the key of a write. -/
def recordAt? (s : Store) (key : String) : Option Record :=
  if isPattern key then (s.patterns.get? key).map (·.record) else s.exact.get? key

/-- A write stores one record, merged or not. -/
theorem write_eq (s : Store) (w : Write) :
    s.write w = s.set w.name (w.onto (s.recordAt? w.key)) := by
  have hget : s.get? w.name = s.recordAt? w.key := rfl
  unfold write
  cases hr : w.replaces with
  | true => simp [Write.onto, hr]
  | false =>
    rw [if_neg Bool.false_ne_true, add, hget]
    cases s.recordAt? w.key <;> simp [Write.onto, hr]

/-- What a write does to a store. -/
inductive Writes (s : Store) (w : Write) : Store → Prop
  | exact (hkey : isPattern w.key = false) :
    Writes s w { s with exact := s.exact.put w.key (w.onto (s.recordAt? w.key)) }
  | known {e : PatternEntry} (hkey : isPattern w.key = true)
    (hold : s.patterns.get? w.key = some e) :
    Writes s w { s with
      patterns := s.patterns.put w.key { e with record := w.onto (s.recordAt? w.key) } }
  | compiled {p : NamePattern} (hkey : isPattern w.key = true)
    (hold : s.patterns.get? w.key = none) (hcompile : NamePattern.compile w.name = .ok p) :
    Writes s w { s with
      patterns := s.patterns.put w.key ⟨w.name, p, w.onto (s.recordAt? w.key)⟩ }

theorem writes_of_write {s t : Store} {w : Write} (h : s.write w = .ok t) : s.Writes w t := by
  rw [write_eq, set_eq] at h
  cases hkey : isPattern w.key with
  | false =>
    rw [hkey, if_neg Bool.false_ne_true] at h
    cases h
    exact .exact hkey
  | true =>
    rw [hkey, if_pos rfl] at h
    cases hold : s.patterns.get? w.key with
    | some e =>
      rw [hold] at h
      cases h
      exact .known hkey hold
    | none =>
      rw [hold] at h
      cases hcompile : NamePattern.compile w.name with
      | error f =>
        rw [hcompile] at h
        cases h
      | ok p =>
        rw [hcompile] at h
        cases h
        exact .compiled hkey hold hcompile

/-- A write fails if its name is a pattern that is new and does not compile. -/
theorem write_eq_error_iff {s : Store} {w : Write} {f : Condition.Fault} :
    s.write w = .error f ↔
      isPattern w.key = true ∧ s.patterns.get? w.key = none ∧
        NamePattern.compile w.name = .error f := by
  rw [write_eq, set_eq]
  cases hkey : isPattern w.key with
  | false => simp
  | true =>
    cases hold : s.patterns.get? w.key with
    | some e => simp
    | none => cases hcompile : NamePattern.compile w.name <;> simp [Except.map]

end Store

namespace Refines

variable {s t : Store} {ws : List Write} {w : Write}

theorem recordAt? (h : Refines s ws) (key : String) : s.recordAt? key = recordUnder ws key := by
  unfold Store.recordAt?
  cases hkey : isPattern key with
  | true => exact h.patternRecord key hkey
  | false =>
    rw [if_neg Bool.false_ne_true, h.exactRecord, exactRecord?, hkey]
    rfl

theorem mem_patternKeys (h : Refines s ws) {key : String} (hkey : isPattern key = true) :
    key ∈ s.patterns.keys ↔ key ∈ keysOf ws := by
  rw [h.patternKeys, List.mem_filter, hkey]
  exact and_iff_left rfl

theorem empty : Refines {} [] where
  exactKeys := rfl
  patternKeys := rfl
  lower := fun _ h => absurd h List.not_mem_nil
  spelled := fun _ _ h => by cases h
  exactRecord := fun key => by
    unfold exactRecord?
    split <;> rfl
  patternRecord := fun _ _ => rfl

theorem lower_keysOf (ws : List Write) :
    ∀ key ∈ keysOf ws, Text.lowerString key = key := by
  intro key hkey
  obtain ⟨v, hv, rfl⟩ := mem_keysOf.1 hkey
  exact Text.lowerString_lowerString v.name

theorem keys_put {α : Type} {m : Ordered α} {p : String → Bool}
    (hm : m.keys = (keysOf ws).filter (p ·)) (hp : p w.key = true) (a : α) :
    (m.put w.key a).keys = (keysOf (ws ++ [w])).filter (p ·) := by
  have hmem : w.key ∈ m.keys ↔ w.key ∈ keysOf ws := by
    rw [hm, List.mem_filter]
    exact and_iff_left hp
  rw [Ordered.keys_put, filter_keysOf_concat, ← hm]
  by_cases hnew : w.key ∈ keysOf ws
  · rw [if_pos (hmem.2 hnew), if_neg fun hn => hn.2 hnew]
  · rw [if_neg fun hn => hnew (hmem.1 hn), if_pos ⟨hp, hnew⟩]

theorem keys_keep {α : Type} {m : Ordered α} {p : String → Bool}
    (hm : m.keys = (keysOf ws).filter (p ·)) (hp : p w.key = false) :
    m.keys = (keysOf (ws ++ [w])).filter (p ·) := by
  rw [filter_keysOf_concat, hm, if_neg fun hn => Bool.false_ne_true (hp.symm.trans hn.1)]

/-- A write to the exact names. -/
theorem put_exact (h : Refines s ws) (hkey : isPattern w.key = false) :
    Refines { s with exact := s.exact.put w.key (w.onto (s.recordAt? w.key)) } (ws ++ [w]) where
  exactKeys := keys_put h.exactKeys (by rw [hkey]; rfl) _
  patternKeys := keys_keep h.patternKeys hkey
  lower := lower_keysOf _
  spelled := by
    intro key e he
    obtain ⟨hsource, hcompile⟩ := h.spelled key e he
    rw [spelling?_concat, hsource]
    exact ⟨rfl, hcompile⟩
  exactRecord := by
    intro key
    rw [Ordered.get?_put, h.recordAt?, exactRecord?, recordUnder_concat, h.exactRecord,
      exactRecord?]
    by_cases hk : key = w.key
    · rw [if_pos hk, if_pos hk, hk, hkey]
      rfl
    · rw [if_neg hk, if_neg hk]
  patternRecord := by
    intro key hpattern
    have hk : key ≠ w.key := by
      intro he
      rw [he, hkey] at hpattern
      cases hpattern
    rw [recordUnder_concat, if_neg hk]
    exact h.patternRecord key hpattern

/-- A write to the patterns. -/
theorem put_pattern (h : Refines s ws) (hkey : isPattern w.key = true) {e : PatternEntry}
    (hrecord : e.record = w.onto (s.recordAt? w.key))
    (hsource : (spelling? ws w.key).getD w.name = e.source)
    (hcompile : NamePattern.compile e.source = .ok e.pattern) :
    Refines { s with patterns := s.patterns.put w.key e } (ws ++ [w]) where
  exactKeys := keys_keep h.exactKeys (by rw [hkey]; rfl)
  patternKeys := keys_put h.patternKeys hkey _
  lower := lower_keysOf _
  spelled := by
    intro key e' he'
    rw [Ordered.get?_put] at he'
    rw [spelling?_concat]
    by_cases hk : key = w.key
    · rw [if_pos hk] at he'
      cases he'
      rw [if_pos hk.symm, hk, ← hsource]
      refine ⟨?_, hsource ▸ hcompile⟩
      cases spelling? ws w.key <;> rfl
    · rw [if_neg hk] at he'
      obtain ⟨hs, hc⟩ := h.spelled key e' he'
      rw [hs]
      exact ⟨rfl, hc⟩
  exactRecord := by
    intro key
    rw [h.exactRecord, exactRecord?, exactRecord?, recordUnder_concat]
    by_cases hk : key = w.key
    · rw [hk, hkey]
      rfl
    · rw [if_neg hk]
  patternRecord := by
    intro key hpattern
    rw [Ordered.get?_put, recordUnder_concat]
    by_cases hk : key = w.key
    · rw [if_pos hk, if_pos hk, Option.map_some, hrecord, h.recordAt?]
    · rw [if_neg hk, if_neg hk]
      exact h.patternRecord key hpattern

/-- A write that succeeds is one more write of the history. -/
theorem write (h : Refines s ws) (hw : s.write w = .ok t) : Refines t (ws ++ [w]) := by
  cases Store.writes_of_write hw with
  | exact hkey => exact h.put_exact hkey
  | @known e hkey hold =>
    obtain ⟨hsource, hcompile⟩ := h.spelled w.key e hold
    exact h.put_pattern hkey rfl (by rw [hsource]; rfl) hcompile
  | @compiled p hkey hold hcompile =>
    have hnew : spelling? ws w.key = none := by
      rw [← Option.not_isSome_iff_eq_none, isSome_spelling?, ← h.mem_patternKeys hkey,
        ← Ordered.isSome_get?, hold]
      exact Bool.false_ne_true
    exact h.put_pattern hkey rfl (by rw [hnew]; rfl) hcompile

/-! ## What is found -/

theorem size_eq (h : Refines s ws) : s.size = (keysOf ws).length := by
  have hexact : s.exact.length = ((keysOf ws).filter (!isPattern ·)).length := by
    rw [← h.exactKeys, Ordered.keys, List.length_map]
  have hpatterns : s.patterns.length = ((keysOf ws).filter (isPattern ·)).length := by
    rw [← h.patternKeys, Ordered.keys, List.length_map]
  rw [Store.size, hexact, hpatterns, Nat.add_comm]
  exact List.length_eq_length_filter_add _ |>.symm

theorem nodup_patternKeys (h : Refines s ws) : s.patterns.keys.Nodup := by
  rw [h.patternKeys]
  exact (nodup_keysOf ws).filter _

/-- The patterns of a store match what their first spellings match. -/
theorem accepts_eq (h : Refines s ws) (name : String) {item : String × PatternEntry}
    (hitem : item ∈ s.patterns) :
    item.2.pattern.accepts name = spellingAccepts ws name item.1 := by
  have hget : s.patterns.get? item.1 = some item.2 :=
    (Ordered.get?_eq_some_iff h.nodup_patternKeys).2 hitem
  obtain ⟨hsource, hcompile⟩ := h.spelled item.1 item.2 hget
  simp [spellingAccepts, hsource, hcompile, Except.toOption]

theorem find?_patterns (h : Refines s ws) (name : String) :
    (s.patterns.find? fun (_, e) => e.pattern.accepts name).map (·.1) = firstMatch? ws name := by
  have hcongr : (s.patterns.find? fun (_, e) => e.pattern.accepts name) =
      s.patterns.find? fun item => spellingAccepts ws name item.1 :=
    List.find?_congr fun item hitem => h.accepts_eq name hitem
  rw [hcongr, firstMatch?, ← h.patternKeys, Ordered.keys, List.find?_map]
  rfl

/-- A plugin's own record is found, or that of the first pattern that matches its name. -/
theorem lookup_eq (h : Refines s ws) (plugin : String) :
    s.lookup plugin =
      (exactRecord? ws (Text.lowerString plugin)).or
        ((firstMatch? ws (Text.lowerString plugin)).bind (recordUnder ws)) := by
  unfold Store.lookup
  simp only [h.exactRecord]
  cases exactRecord? ws (Text.lowerString plugin) with
  | some r => rfl
  | none =>
    rw [Option.none_or, ← h.find?_patterns]
    cases hfound : s.patterns.find? fun (_, e) => e.pattern.accepts (Text.lowerString plugin) with
    | none => rfl
    | some item =>
      have hmem : item ∈ s.patterns := List.mem_of_find?_eq_some hfound
      have hget : s.patterns.get? item.1 = some item.2 :=
        (Ordered.get?_eq_some_iff h.nodup_patternKeys).2 hmem
      have hkey : isPattern item.1 = true := by
        have hk : item.1 ∈ s.patterns.keys := List.mem_map_of_mem hmem
        rw [h.patternKeys] at hk
        exact (List.mem_filter.1 hk).2
      have hrecord := h.patternRecord item.1 hkey
      rw [hget] at hrecord
      exact hrecord

end Refines

/-! ## Merging -/

/-- A write that no store refuses: its name is no pattern or compiles. -/
def Write.Compiles (w : Write) : Prop :=
  isPattern w.key = true → ∃ p, NamePattern.compile w.name = .ok p

namespace Store

theorem exists_write (s : Store) {w : Write} (hw : w.Compiles) : ∃ t, s.write w = .ok t := by
  cases h : s.write w with
  | ok t => exact ⟨t, rfl⟩
  | error f =>
    obtain ⟨hkey, -, hcompile⟩ := write_eq_error_iff.1 h
    obtain ⟨p, hp⟩ := hw hkey
    rw [hp] at hcompile
    cases hcompile

/-- A store is merged into another by writing its entries. -/
theorem merge_eq_writes (s other : Store) : s.merge other = other.toWrites.foldlM write s := by
  rw [merge, toWrites, List.foldlM_map]
  rfl

end Store

namespace Refines

variable {s other : Store} {ws us vs : List Write}

theorem exists_writes (h : Refines s ws) (hvs : ∀ w ∈ vs, w.Compiles) :
    ∃ t, vs.foldlM Store.write s = .ok t ∧ Refines t (ws ++ vs) := by
  induction vs generalizing s ws with
  | nil => exact ⟨s, rfl, by rwa [List.append_nil]⟩
  | cons v vs ih =>
    obtain ⟨hv, hrest⟩ := List.forall_mem_cons.1 hvs
    obtain ⟨t, ht⟩ := s.exists_write hv
    obtain ⟨u, hu, hrefines⟩ := ih (h.write ht) hrest
    refine ⟨u, ?_, ?_⟩
    · rw [List.foldlM_cons, ht]
      exact hu
    · rwa [List.append_assoc] at hrefines

/-- No store refuses the entries of another one: its patterns did compile. -/
theorem compiles_toWrites (h : Refines s ws) : ∀ w ∈ s.toWrites, w.Compiles := by
  intro w hw
  obtain ⟨⟨name, record⟩, hentry, rfl⟩ := List.mem_map.1 hw
  rcases List.mem_append.1 hentry with hexact | hpattern
  · intro hkey
    have hname : name ∈ s.exact.keys := List.mem_map_of_mem (f := (·.1)) hexact
    rw [h.exactKeys, List.mem_filter] at hname
    rw [Write.isPattern_key] at hkey
    simp [hkey] at hname
  · intro _
    obtain ⟨⟨key, e⟩, hitem, heq⟩ := List.mem_map.1 hpattern
    cases heq
    have hget : s.patterns.get? key = some e :=
      (Ordered.get?_eq_some_iff h.nodup_patternKeys).2 hitem
    exact ⟨e.pattern, (h.spelled key e hget).2⟩

/-- Merging a store does not fail, and adds its entries to the history. -/
theorem exists_merge (h : Refines s ws) (hother : Refines other us) :
    ∃ t, s.merge other = .ok t ∧ Refines t (ws ++ other.toWrites) := by
  rw [Store.merge_eq_writes]
  exact h.exists_writes hother.compiles_toWrites

end Refines

namespace Making

/-- A store in the making says what its writes say. -/
def Refined (m : Making) : Prop := Refines m.store m.writes

theorem refined_empty : ({} : Making).Refined := Refines.empty

theorem step_merge {m : Making} (h : m.Refined) {others : List Step}
    (hothers : (({} : Making).steps others).Refined) :
    ∃ t, m.store.merge (({} : Making).steps others).store = .ok t ∧
      m.step (.merge others) = ⟨t, m.writes ++ (({} : Making).steps others).store.toWrites⟩ ∧
      (m.step (.merge others)).Refined := by
  obtain ⟨t, ht, hrefines⟩ := Refines.exists_merge h hothers
  have hstep : m.step (.merge others) =
      ⟨t, m.writes ++ (({} : Making).steps others).store.toWrites⟩ := by
    simp only [step, ht]
  refine ⟨t, ht, hstep, ?_⟩
  rw [hstep]
  exact hrefines

theorem step_write {m : Making} (h : m.Refined) (w : Write) : (m.step (.write w)).Refined := by
  rw [step]
  cases hw : m.store.write w with
  | ok t => exact Refines.write h hw
  | error f => exact h

mutual

theorem refined_step (m : Making) (h : m.Refined) : ∀ st : Step, (m.step st).Refined
  | .write w => step_write h w
  | .merge others => by
    obtain ⟨_, _, _, hrefined⟩ := step_merge h (refined_steps {} refined_empty others)
    exact hrefined

theorem refined_steps (m : Making) (h : m.Refined) : ∀ sts : List Step, (m.steps sts).Refined
  | [] => h
  | st :: sts => refined_steps (m.step st) (refined_step m h st) sts

end

end Making

/-! ## What stays first -/

theorem keysOf_prefix_append (ws vs : List Write) : keysOf ws <+: keysOf (ws ++ vs) := by
  unfold keysOf
  rw [List.map_append, List.eraseDups_append]
  exact List.prefix_append _ _

theorem spellingAccepts_append {ws : List Write} {key : String} (hkey : key ∈ keysOf ws)
    (vs : List Write) (name : String) :
    spellingAccepts (ws ++ vs) name key = spellingAccepts ws name key := by
  have hsome : (ws.find? (·.key = key)).isSome := by
    rw [← Option.isSome_map (f := (·.name))]
    exact isSome_spelling?.2 hkey
  obtain ⟨w, hw⟩ := Option.isSome_iff_exists.1 hsome
  rw [spellingAccepts, spellingAccepts, spelling?, spelling?, List.find?_append, hw]
  rfl

/-- Later writes never go before the pattern that matches first. -/
theorem firstMatch?_append {ws : List Write} {name key : String}
    (h : firstMatch? ws name = some key) (vs : List Write) :
    firstMatch? (ws ++ vs) name = some key := by
  obtain ⟨more, hmore⟩ := keysOf_prefix_append ws vs
  have hcongr : ((keysOf ws).filter (isPattern ·)).find? (spellingAccepts (ws ++ vs) name) =
      ((keysOf ws).filter (isPattern ·)).find? (spellingAccepts ws name) :=
    List.find?_congr fun k hk => spellingAccepts_append (List.mem_of_mem_filter hk) vs name
  rw [firstMatch?, ← hmore, List.filter_append, List.find?_append, hcongr, ← firstMatch?, h]
  rfl

/-- However a store was made, it says what its writes say: the size is the number of names, a lookup
finds the merged records of the exact name or of the first pattern that matches. A write fails if
its pattern is new and does not compile, and changes nothing then. A merge does not fail, and the
patterns it brings come after those that were there. -/
theorem refines_of_steps (steps : List Step) :
    let m := ({} : Making).steps steps
    Refines m.store m.writes ∧
    m.store.size = (keysOf m.writes).length ∧
    (∀ plugin, m.store.lookup plugin =
      (exactRecord? m.writes (Text.lowerString plugin)).or
        ((firstMatch? m.writes (Text.lowerString plugin)).bind (recordUnder m.writes))) ∧
    (∀ w f, m.store.write w = .error f ↔
      isPattern w.key = true ∧ w.key ∉ keysOf m.writes ∧ NamePattern.compile w.name = .error f) ∧
    (∀ w f, m.store.write w = .error f → m.step (.write w) = m) ∧
    ∀ others, ∃ t,
      let other := (({} : Making).steps others).store
      m.store.merge other = .ok t ∧
      m.step (.merge others) = ⟨t, m.writes ++ other.toWrites⟩ ∧
      ∀ name key, firstMatch? m.writes name = some key →
        firstMatch? (m.writes ++ other.toWrites) name = some key := by
  intro m
  have h : Refines m.store m.writes := Making.refined_steps {} Making.refined_empty steps
  refine ⟨h, h.size_eq, h.lookup_eq, ?_, ?_, ?_⟩
  · intro w f
    rw [Store.write_eq_error_iff]
    refine and_congr_right fun hkey => and_congr_left fun _ => ?_
    rw [← h.mem_patternKeys hkey, ← Ordered.isSome_get?, Option.not_isSome_iff_eq_none]
  · intro w f hw
    simp only [Making.step, hw]
  · intro others
    have hothers := Making.refined_steps {} Making.refined_empty others
    obtain ⟨t, ht, hstep, -⟩ := Making.step_merge h hothers
    exact ⟨t, ht, hstep, fun name key hfirst => firstMatch?_append hfirst _⟩

end PluginAudit.Metadata
