import Mathlib.Data.List.Pairwise
import PluginAudit.Proofs.RecordMerging

/-!
# What merging makes of each entry

Merging goes through the items of the second list one by one and changes the first list on the way:
entries are overlaid in their place, and a bare reference that an entry replaces leaves its place
for the end. What comes out is described here without going through the lists (`MergesRefs`,
`MergesDirty`): which names there are, what stands under each, and in which order.

The order is the hard part. `place` says where a name counts in all that was said, and `Arranged` is
the invariant: what is merged so far stands in the order of the places in what was added so far
(`Arranged.add`, then `arranged_addEach`).
-/

namespace PluginAudit.Metadata

/-! ## What is said under a name -/

/-- A field of which something is said twice: the later value, if there is one. -/
def later {α : Type} (old new : Option α) : Option α :=
  match new with
  | some value => some value
  | none => old

namespace FileRef

def isEntry : FileRef → Bool
  | bare _ => false
  | entry _ => true

/-- What a reference to a name makes of what stands under it, if anything does: an entry is laid
over an entry field by field. -/
def laidOver : Option FileRef → FileRef → FileRef
  | none, ref => ref
  | some old, .bare _ => old
  | some (.bare _), .entry e => .entry e
  | some (.entry o), .entry e => .entry
    { name := e.name
      display := later o.display e.display
      detail := later o.detail e.detail
      condition := later o.condition e.condition }

end FileRef

/-- What a dirty state makes of what is there under its checksum, if anything is. -/
def DirtyInfo.laidOver : Option DirtyInfo → DirtyInfo → DirtyInfo
  | none, info => info
  | some old, info =>
    { crc := info.crc
      util := later old.util info.util
      detail := later old.detail info.detail
      itm := later old.itm info.itm
      udr := later old.udr info.udr
      nav := later old.nav info.nav }

/-- The first reference to a name. -/
def refTo? (refs : List FileRef) (n : String) : Option FileRef := refs.find? (·.name = n)

/-- Whether a name occurs with more to be said about it. -/
def saysMore (refs : List FileRef) (n : String) : Bool := refs.any fun r => r.isEntry && r.name = n

/-- The place where a name first occurs with more to be said about it, or else where it first
occurs at all. -/
def place (refs : List FileRef) (n : String) : Nat :=
  (refs.findIdx? fun r => r.isEntry && r.name = n).getD (refs.findIdx (·.name = n))

/-- The references of two lists merged name by name. -/
structure MergesRefs (base override merged : List FileRef) : Prop where
  nodup : (merged.map FileRef.name).Nodup
  names : ∀ n, n ∈ merged.map FileRef.name ↔
    n ∈ base.map FileRef.name ∨ n ∈ override.map FileRef.name
  /-- Under a name stands what its references in the second list make of that in the first. -/
  value : ∀ n, refTo? merged n =
    (override.filter (·.name = n)).foldl (fun old ref => some (FileRef.laidOver old ref))
      (refTo? base n)
  order : (merged.map FileRef.name).Pairwise fun m n =>
    place (base ++ override) m < place (base ++ override) n

/-- The dirty states of two lists merged checksum by checksum. -/
structure MergesDirty (base override merged : List DirtyInfo) : Prop where
  crcs : merged.map DirtyInfo.crc = ((base ++ override).map DirtyInfo.crc).eraseDups
  value : ∀ c, merged.find? (·.crc = c) =
    (override.filter (·.crc = c)).foldl (fun old info => some (DirtyInfo.laidOver old info))
      (base.find? (·.crc = c))

/-- A record is what merging two records entry by entry comes to. -/
structure Record.Merges (base override merged : Record) : Prop where
  distinct : merged.Distinct
  requirements : MergesRefs (base.requirements.getD []) (override.requirements.getD [])
    (merged.requirements.getD [])
  incompatibilities : MergesRefs (base.incompatibilities.getD [])
    (override.incompatibilities.getD []) (merged.incompatibilities.getD [])
  dirtyInfo : MergesDirty (base.dirtyInfo.getD []) (override.dirtyInfo.getD [])
    (merged.dirtyInfo.getD [])
  messages : merged.messages.getD [] = base.messages.getD [] ++
    ((override.messages.getD []).filter (· ∉ base.messages.getD [])).eraseDups
  /-- A list that is absent or empty changes nothing. -/
  requirementsKept : override.requirements.getD [] = [] → merged.requirements = base.requirements
  incompatibilitiesKept :
    override.incompatibilities.getD [] = [] → merged.incompatibilities = base.incompatibilities
  dirtyInfoKept : override.dirtyInfo.getD [] = [] → merged.dirtyInfo = base.dirtyInfo
  messagesKept : override.messages.getD [] = [] → merged.messages = base.messages

/-! ## Places -/

section Places

variable {n : String} {ref : FileRef} {hist : List FileRef}

theorem saysMore_concat (hist : List FileRef) (ref : FileRef) (n : String) :
    saysMore (hist ++ [ref]) n = (saysMore hist n || (ref.isEntry && ref.name = n)) := by
  rw [saysMore, saysMore, List.any_append, List.any_cons, List.any_nil, Bool.or_false]

theorem findIdx_name_lt (h : n ∈ hist.map FileRef.name) :
    hist.findIdx (·.name = n) < hist.length := by
  obtain ⟨r, hr, hname⟩ := List.mem_map.1 h
  exact List.findIdx_lt_length_of_exists ⟨r, hr, decide_eq_true hname⟩

/-- A name that occurs has its place among what was said. -/
theorem place_lt (h : n ∈ hist.map FileRef.name) : place hist n < hist.length := by
  rw [place]
  cases hfind : hist.findIdx? fun r => r.isEntry && r.name = n with
  | none => exact findIdx_name_lt h
  | some i => exact (List.findIdx?_eq_some_iff_getElem.1 hfind).1

theorem findIdx?_eq_none (h : saysMore hist n = false) :
    (hist.findIdx? fun r => r.isEntry && r.name = n) = none := by
  rw [List.findIdx?_eq_none_iff]
  rw [saysMore, List.any_eq_false] at h
  intro r hr
  exact Bool.eq_false_iff.2 (h r hr)

/-- A name keeps its place unless it is now for the first time that more is said about it. -/
theorem place_concat_of_known (hmem : n ∈ hist.map FileRef.name)
    (h : (ref.isEntry && ref.name = n) = true → saysMore hist n = true) :
    place (hist ++ [ref]) n = place hist n := by
  have hfirst : (hist ++ [ref]).findIdx (·.name = n) = hist.findIdx (·.name = n) := by
    rw [List.findIdx_append, if_pos (findIdx_name_lt hmem)]
  rw [place, place, hfirst, List.findIdx?_append]
  cases hfind : hist.findIdx? fun r => r.isEntry && r.name = n with
  | some i => rfl
  | none =>
    have hnone : saysMore hist n = false := by
      rw [saysMore, List.any_eq_false]
      intro r hr
      exact Bool.eq_false_iff.1 (List.findIdx?_eq_none_iff.1 hfind r hr)
    have href : (ref.isEntry && ref.name = n) = false := by
      by_contra htrue
      rw [h (Bool.not_eq_false _ ▸ htrue)] at hnone
      cases hnone
    rw [List.findIdx?_singleton, href]
    rfl

/-- A name comes to the end if it is new, or if more is said about it for the first time. -/
theorem place_concat_of_new (hmore : saysMore hist ref.name = false)
    (h : ref.isEntry = true ∨ ref.name ∉ hist.map FileRef.name) :
    place (hist ++ [ref]) ref.name = hist.length := by
  rw [place, List.findIdx?_append, findIdx?_eq_none hmore, List.findIdx?_singleton]
  cases hentry : ref.isEntry with
  | true => simp
  | false =>
    have hnew : ref.name ∉ hist.map FileRef.name := by
      refine h.resolve_left ?_
      rw [hentry]
      exact Bool.false_ne_true
    have hlast : hist.findIdx (·.name = ref.name) = hist.length := by
      refine List.findIdx_eq_length_of_false fun r hr => ?_
      exact decide_eq_false fun hname => hnew (List.mem_map.2 ⟨r, hr, hname⟩)
    simp [List.findIdx_append, hlast]

end Places

/-! ## The order of references -/

/-- References stand in the order of their places in what was said, and are entries if more than
their names was said. -/
structure Arranged (hist refs : List FileRef) : Prop where
  names : ∀ n, n ∈ refs.map FileRef.name ↔ n ∈ hist.map FileRef.name
  entries : ∀ r ∈ refs, r.isEntry = saysMore hist r.name
  order : (refs.map FileRef.name).Pairwise fun m n => place hist m < place hist n

namespace Arranged

variable {hist refs : List FileRef} {ref : FileRef}

theorem nodup (h : Arranged hist refs) : (refs.map FileRef.name).Nodup :=
  h.order.imp fun hlt heq => Nat.ne_of_lt hlt (congrArg (place hist) heq)

/-- Names other than the one that is added keep their places. -/
theorem place_of_ne (h : Arranged hist refs) {n : String} (hn : n ∈ refs.map FileRef.name)
    (hne : ref.name ≠ n) : place (hist ++ [ref]) n = place hist n := by
  refine place_concat_of_known ((h.names n).1 hn) fun hmore => ?_
  exact absurd (of_decide_eq_true (Bool.and_eq_true_iff.1 hmore).2) hne

theorem saysMore_of_ne {n : String} (hne : ref.name ≠ n) :
    saysMore (hist ++ [ref]) n = saysMore hist n := by
  rw [saysMore_concat, decide_eq_false hne, Bool.and_false, Bool.or_false]

/-- What comes to the end because it is new, or because more is said about it for the first time,
stands in its place there. -/
theorem concat {kept : List FileRef} (h : Arranged hist refs) (hsub : kept.Sublist refs)
    (hother : ∀ n, n ∈ kept.map FileRef.name ↔ n ∈ refs.map FileRef.name ∧ ref.name ≠ n)
    (hmore : saysMore hist ref.name = false)
    (hend : ref.isEntry = true ∨ ref.name ∉ hist.map FileRef.name) :
    Arranged (hist ++ [ref]) (kept ++ [ref]) where
  names := by
    intro n
    rw [List.map_append, List.map_append, List.mem_append, List.mem_append, hother, h.names,
      List.map_singleton, List.mem_singleton]
    by_cases hn : ref.name = n
    · simp [hn]
    · simp [hn]
  entries := by
    intro r hr
    rcases List.mem_append.1 hr with hr | hr
    · have hne : ref.name ≠ r.name := ((hother r.name).1 (List.mem_map_of_mem hr)).2
      rw [saysMore_of_ne hne, h.entries r (hsub.subset hr)]
    · obtain rfl : r = ref := List.mem_singleton.1 hr
      rw [saysMore_concat, hmore, decide_eq_true rfl, Bool.and_true, Bool.false_or]
  order := by
    rw [List.map_append, List.pairwise_append]
    have hplace : ∀ n ∈ kept.map FileRef.name, place (hist ++ [ref]) n = place hist n := by
      intro n hn
      obtain ⟨hmem, hne⟩ := (hother n).1 hn
      exact h.place_of_ne hmem hne
    refine ⟨?_, List.pairwise_singleton _ _, ?_⟩
    · refine (h.order.sublist (hsub.map FileRef.name)).imp_of_mem fun hm hn hlt => ?_
      rw [hplace _ hm, hplace _ hn]
      exact hlt
    · intro m hm n hn
      obtain rfl : n = ref.name := List.mem_singleton.1 hn
      rw [hplace m hm, place_concat_of_new hmore hend]
      exact place_lt ((h.names m).1 ((hother m).1 hm).1)

/-- A reference that adds no name and is not the first to say more keeps all places. -/
theorem keep {refs' : List FileRef} (h : Arranged hist refs)
    (hnames : refs'.map FileRef.name = refs.map FileRef.name)
    (hentries : ∀ r ∈ refs', r.isEntry = saysMore hist r.name)
    (hmem : ref.name ∈ refs.map FileRef.name)
    (hmore : ref.isEntry = true → saysMore hist ref.name = true) :
    Arranged (hist ++ [ref]) refs' := by
  have hsays : ∀ n, saysMore (hist ++ [ref]) n = saysMore hist n := by
    intro n
    by_cases hn : ref.name = n
    · subst hn
      rw [saysMore_concat, decide_eq_true rfl, Bool.and_true]
      cases hentry : ref.isEntry with
      | false => rw [Bool.or_false]
      | true => rw [hmore hentry, Bool.true_or]
    · exact saysMore_of_ne hn
  have hplace : ∀ n ∈ refs.map FileRef.name, place (hist ++ [ref]) n = place hist n := by
    intro n hn
    refine place_concat_of_known ((h.names n).1 hn) fun href => ?_
    obtain ⟨hentry, hname⟩ := Bool.and_eq_true_iff.1 href
    exact of_decide_eq_true hname ▸ hmore hentry
  refine ⟨fun n => ?_, fun r hr => ?_, ?_⟩
  · rw [hnames, h.names, List.map_append, List.mem_append, List.map_singleton, List.mem_singleton]
    refine ⟨.inl, fun hn => hn.elim id ?_⟩
    rintro rfl
    exact (h.names _).1 hmem
  · rw [hentries r hr, hsays]
  · rw [hnames]
    refine h.order.imp_of_mem fun hm hn hlt => ?_
    rw [hplace _ hm, hplace _ hn]
    exact hlt

theorem add_new (h : Arranged hist refs) (hnew : ref.name ∉ refs.map FileRef.name) :
    Arranged (hist ++ [ref]) (refs ++ [ref]) := by
  have hhist : ref.name ∉ hist.map FileRef.name := fun hn => hnew ((h.names _).2 hn)
  have hmore : saysMore hist ref.name = false := by
    rw [saysMore, List.any_eq_false]
    intro r hr hsays
    have hname : r.name = ref.name := of_decide_eq_true (Bool.and_eq_true_iff.1 hsays).2
    exact hhist (hname ▸ List.mem_map_of_mem hr)
  refine h.concat (List.Sublist.refl refs) (fun n => ?_) hmore (.inr hhist)
  exact ⟨fun hn => ⟨hn, fun heq => hnew (heq ▸ hn)⟩, And.left⟩

/-- One more reference keeps the order. -/
theorem add (h : Arranged hist refs) (ref : FileRef) :
    Arranged (hist ++ [ref]) (addFileRef ref refs) := by
  by_cases hmem : ref.name ∈ refs.map FileRef.name
  · obtain ⟨xs, old, ys, rfl, hold, hxs, hys⟩ := exists_of_nodup_map h.nodup hmem
    have hsays : old.isEntry = saysMore hist ref.name := by
      rw [← hold]
      exact h.entries old (List.mem_append_right xs List.mem_cons_self)
    cases ref with
    | bare n =>
      rw [addFileRef_bare hmem]
      exact h.keep rfl h.entries hmem fun hentry => by cases hentry
    | entry e =>
      cases old with
      | bare m =>
        -- The bare reference leaves its place for the end.
        obtain rfl : m = e.name := hold
        rw [addFileRef_append hxs, addFileRef_promote, ← List.append_assoc]
        refine h.concat ?_ (fun n => ?_) hsays.symm (.inl rfl)
        · exact (List.sublist_cons_self _ ys).append_left xs
        · rw [List.map_append, List.map_append, List.mem_append, List.mem_append, List.map_cons,
            List.mem_cons]
          constructor
          · intro hn
            refine ⟨hn.imp_right .inr, ?_⟩
            rintro rfl
            exact hn.elim hxs hys
          · rintro ⟨hn, hne⟩
            exact hn.imp_right fun hn => hn.resolve_left (Ne.symm hne)
      | entry o =>
        rw [addFileRef_append hxs, addFileRef_overlay hold]
        refine h.keep ?_ (fun r hr => ?_) hmem fun _ => hsays.symm
        · rw [List.map_append, List.map_append, List.map_cons, List.map_cons, hold]
          rfl
        · rcases List.mem_append.1 hr with hr | hr
          · exact h.entries r (List.mem_append_left _ hr)
          · rcases List.mem_cons.1 hr with rfl | hr
            · exact hsays
            · exact h.entries r (List.mem_append_right xs (List.mem_cons_of_mem _ hr))
  · rw [addFileRef_of_not_mem hmem]
    exact h.add_new hmem

end Arranged

/-- References without repeated names stand in their places. -/
theorem arranged_self {refs : List FileRef} (h : (refs.map FileRef.name).Nodup) :
    Arranged refs refs := by
  induction refs using List.reverseRecOn with
  | nil => exact ⟨fun _ => Iff.rfl, fun _ hr => absurd hr List.not_mem_nil, List.Pairwise.nil⟩
  | append_singleton refs ref ih =>
    rw [List.map_append, List.map_singleton, ← List.concat_eq_append, List.nodup_concat] at h
    exact (ih h.2).add_new h.1

/-- The references of a list are added in the order of their places. -/
theorem arranged_addEach {hist refs : List FileRef} (h : Arranged hist refs)
    (override : List FileRef) : Arranged (hist ++ override) (addEach addFileRef refs override) := by
  induction override generalizing hist refs with
  | nil =>
    rw [List.append_nil]
    exact h
  | cons ref override ih =>
    rw [List.append_cons, addEach_cons]
    exact ih (h.add ref)

/-! ## What stands under a name -/

theorem orElse_eq_later {α : Type} (old new : Option α) : (new <|> old) = later old new := by
  cases new <;> rfl

theorem FileEntry.entry_overlay (o e : FileEntry) :
    .entry (o.overlay e) = FileRef.laidOver (some (.entry o)) (.entry e) := by
  simp only [overlay, FileRef.laidOver, orElse_eq_later]

theorem DirtyInfo.overlay_eq_laidOver (old info : DirtyInfo) :
    old.overlay info = laidOver (some old) info := by
  simp only [overlay, laidOver, orElse_eq_later]

theorem refTo?_eq_none {n : String} {refs : List FileRef} (h : n ∉ refs.map FileRef.name) :
    refTo? refs n = none := by
  refine List.find?_eq_none.2 fun r hr hname => ?_
  exact h (List.mem_map.2 ⟨r, hr, of_decide_eq_true hname⟩)

theorem refTo?_append {n : String} {xs : List FileRef} (h : n ∉ xs.map FileRef.name)
    (ys : List FileRef) : refTo? (xs ++ ys) n = refTo? ys n := by
  rw [refTo?, List.find?_append, ← refTo?, refTo?_eq_none h, Option.none_or, refTo?]

theorem refTo?_cons_self {n : String} {r : FileRef} (h : r.name = n) (refs : List FileRef) :
    refTo? (r :: refs) n = some r :=
  List.find?_cons_of_pos (decide_eq_true h)

theorem refTo?_cons_of_ne {n : String} {r : FileRef} (h : r.name ≠ n) (refs : List FileRef) :
    refTo? (r :: refs) n = refTo? refs n :=
  List.find?_cons_of_neg fun hname => h (of_decide_eq_true hname)

/-- What stands under another name than that of the reference does not change. -/
theorem refTo?_addFileRef_of_ne {ref : FileRef} {n : String} (hn : ref.name ≠ n)
    (refs : List FileRef) : refTo? (addFileRef ref refs) n = refTo? refs n := by
  induction refs with
  | nil => exact refTo?_cons_of_ne hn []
  | cons old refs ih =>
    by_cases hold : old.name = ref.name
    · have hne : old.name ≠ n := fun heq => hn (hold.symm.trans heq)
      rw [refTo?_cons_of_ne hne]
      cases ref with
      | bare m => rw [addFileRef_known hold, refTo?_cons_of_ne hne]
      | entry e =>
        cases old with
        | bare m =>
          obtain rfl : m = e.name := hold
          rw [addFileRef_promote, refTo?, List.find?_append, ← refTo?, ← refTo?,
            refTo?_cons_of_ne hn]
          exact Option.or_none
        | entry o =>
          have hover : (FileRef.entry (o.overlay e)).name ≠ n := hn
          rw [addFileRef_overlay hold, refTo?_cons_of_ne hover]
    · rw [addFileRef_of_ne hold]
      by_cases hne : old.name = n
      · rw [refTo?_cons_self hne, refTo?_cons_self hne]
      · rw [refTo?_cons_of_ne hne, refTo?_cons_of_ne hne, ih]

/-- Under its own name stands what a reference makes of what was there. -/
theorem refTo?_addFileRef_self {refs : List FileRef} (h : (refs.map FileRef.name).Nodup)
    (ref : FileRef) :
    refTo? (addFileRef ref refs) ref.name = some (FileRef.laidOver (refTo? refs ref.name) ref) := by
  by_cases hmem : ref.name ∈ refs.map FileRef.name
  · obtain ⟨xs, old, ys, rfl, hold, hxs, hys⟩ := exists_of_nodup_map h hmem
    rw [refTo?_append hxs, refTo?_cons_self hold]
    cases ref with
    | bare n =>
      rw [addFileRef_bare hmem, refTo?_append hxs, refTo?_cons_self hold]
      cases old <;> rfl
    | entry e =>
      cases old with
      | bare m =>
        obtain rfl : m = e.name := hold
        rw [addFileRef_append hxs, addFileRef_promote, refTo?_append hxs, refTo?_append hys,
          refTo?_cons_self rfl]
        rfl
      | entry o =>
        have hname : (FileRef.entry (o.overlay e)).name = (FileRef.entry e).name := rfl
        rw [addFileRef_append hxs, addFileRef_overlay hold, refTo?_append hxs,
          refTo?_cons_self hname, FileEntry.entry_overlay]
  · rw [addFileRef_of_not_mem hmem, refTo?_append hmem, refTo?_cons_self rfl, refTo?_eq_none hmem]
    rfl

theorem refTo?_addEach {base : List FileRef} (h : (base.map FileRef.name).Nodup)
    (override : List FileRef) (n : String) :
    refTo? (addEach addFileRef base override) n =
      (override.filter (·.name = n)).foldl (fun old ref => some (FileRef.laidOver old ref))
        (refTo? base n) := by
  induction override generalizing base with
  | nil => rfl
  | cons ref override ih =>
    rw [addEach_cons, ih (nodup_addFileRef ref base h)]
    by_cases hn : ref.name = n
    · subst hn
      rw [refTo?_addFileRef_self h, List.filter_cons, if_pos (decide_eq_true rfl), List.foldl_cons]
    · rw [refTo?_addFileRef_of_ne hn, List.filter_cons, if_neg fun h => hn (of_decide_eq_true h)]

theorem mergesRefs {base : List FileRef} (h : (base.map FileRef.name).Nodup)
    (override : List FileRef) : MergesRefs base override (addEach addFileRef base override) := by
  have harranged := arranged_addEach (arranged_self h) override
  refine ⟨harranged.nodup, fun n => ?_, refTo?_addEach h override, harranged.order⟩
  rw [harranged.names, List.map_append, List.mem_append]

/-! ## Dirty states and messages -/

theorem mergesDirty {base : List DirtyInfo} (h : (base.map DirtyInfo.crc).Nodup)
    (override : List DirtyInfo) :
    MergesDirty base override
      (addEach (addKeyed DirtyInfo.crc DirtyInfo.overlay) base override) := by
  refine ⟨keys_addEach_addKeyed overlays_dirtyInfo.keepsKey h override, fun c => ?_⟩
  clear h
  induction override generalizing base with
  | nil => rfl
  | cons info override ih =>
    rw [addEach_cons, ih, find?_addKeyed overlays_dirtyInfo.keepsKey]
    by_cases hc : info.crc = c
    · rw [if_pos hc, List.filter_cons, if_pos (decide_eq_true hc), List.foldl_cons]
      cases base.find? (·.crc = c) with
      | none => rfl
      | some old => rw [← DirtyInfo.overlay_eq_laidOver]; rfl
    · rw [if_neg hc, List.filter_cons, if_neg fun h => hc (of_decide_eq_true h)]

theorem addEach_addMessage (base override : List Message) :
    addEach addMessage base override =
      base ++ (override.filter (· ∉ base)).eraseDups := by
  induction override using List.reverseRecOn with
  | nil => exact (List.append_nil base).symm
  | append_singleton override m ih =>
    rw [addEach_concat, ih, List.filter_append]
    by_cases hbase : m ∈ base
    · have hnone : [m].filter (· ∉ base) = [] := by simpa using hbase
      rw [addMessage_of_mem (List.mem_append_left _ hbase), hnone, List.append_nil]
    · have hone : [m].filter (· ∉ base) = [m] := by simpa using hbase
      have hmem : m ∈ override.filter (· ∉ base) ↔
          m ∈ base ++ (override.filter (· ∉ base)).eraseDups := by
        rw [List.mem_append, List.mem_eraseDups]
        exact ⟨.inr, fun h => h.resolve_left hbase⟩
      rw [hone, eraseDups_concat, addMessage]
      simp only [hmem]
      split
      · rfl
      · exact List.append_assoc _ _ _

/-! ## Adding what is there -/

theorem FileEntry.overlay_self (e : FileEntry) : e.overlay e = e := by
  obtain ⟨name, display, detail, condition⟩ := e
  cases display <;> cases detail <;> cases condition <;> rfl

theorem DirtyInfo.overlay_self (d : DirtyInfo) : d.overlay d = d := by
  obtain ⟨crc, util, detail, itm, udr, nav⟩ := d
  cases util <;> cases detail <;> cases itm <;> cases udr <;> cases nav <;> rfl

theorem addFileRef_self (ref : FileRef) (refs : List FileRef)
    (h : (refs.map FileRef.name).Nodup) (hmem : ref ∈ refs) : addFileRef ref refs = refs := by
  obtain ⟨xs, old, ys, rfl, hold, hxs, hys⟩ := exists_of_nodup_map h (List.mem_map_of_mem hmem)
  obtain rfl : ref = old := by
    rcases List.mem_append.1 hmem with hm | hm
    · exact absurd (List.mem_map_of_mem hm) hxs
    · refine (List.mem_cons.1 hm).resolve_right fun hm => ?_
      exact hys (List.mem_map_of_mem hm)
  cases ref with
  | bare n => exact addFileRef_bare (List.mem_map_of_mem hmem)
  | entry e => rw [addFileRef_append hxs, addFileRef_overlay rfl, FileEntry.overlay_self]

section

variable {α : Type} {P : List α → Prop} {add : α → List α → List α}

theorem mergeLists_of_empty {base ys : Option (List α)} (h : ys.getD [] = []) :
    mergeLists (addEach add) base ys = base := by
  cases ys with
  | none => rfl
  | some ys =>
    obtain rfl : ys = [] := h
    rfl

theorem mergeLists_twice (h : Collects (fun _ => True) P add)
    (hself : ∀ a l, P l → a ∈ l → add a l = l) {base : Option (List α)} (hb : P (base.getD []))
    (ys : Option (List α)) :
    mergeLists (addEach add) (mergeLists (addEach add) base ys) ys =
      mergeLists (addEach add) base ys := by
  cases ys with
  | none => rfl
  | some ys =>
    cases ys with
    | nil => rfl
    | cons a ys =>
      have htwice : addEach add (addEach add (base.getD []) (a :: ys)) (a :: ys) =
          addEach add (base.getD []) (a :: ys) :=
        h.addEach_twice hself hb fun _ _ => trivial
      exact congrArg some htwice

end

/-! ## Records -/

namespace Record

/-- Merging the same record again changes nothing. -/
theorem merge_twice {base : Record} (h : base.Distinct) (override : Record) :
    (base.merge override).merge override = base.merge override := by
  simp only [merge, mergeFileRefs_eq, mergeMessages_eq, mergeDirtyInfo_eq, mk.injEq]
  refine ⟨?_, ?_, ?_, ?_⟩
  · exact mergeLists_twice collects_addFileRef addFileRef_self h.requirements _
  · exact mergeLists_twice collects_addFileRef addFileRef_self h.incompatibilities _
  · exact mergeLists_twice collects_addMessage (fun _ _ _ hm => addMessage_of_mem hm) trivial _
  · refine mergeLists_twice (collects_addKeyed overlays_dirtyInfo) (fun d l hl hd => ?_) h.keyed _
    exact addKeyed_self d.overlay_self hl.nodup hd

/-- Records are merged entry by entry. -/
theorem merges_merge {base : Record} (h : base.Distinct) (override : Record) :
    Merges base override (base.merge override) where
  distinct := h.merge override
  requirements := by
    rw [merge, mergeFileRefs_eq, getD_mergeLists]
    exact mergesRefs h.requirements _
  incompatibilities := by
    rw [merge, mergeFileRefs_eq, getD_mergeLists]
    exact mergesRefs h.incompatibilities _
  dirtyInfo := by
    rw [merge, mergeDirtyInfo_eq, getD_mergeLists]
    exact mergesDirty h.dirtyInfo _
  messages := by
    rw [merge, mergeMessages_eq, getD_mergeLists]
    exact addEach_addMessage _ _
  requirementsKept := mergeLists_of_empty
  incompatibilitiesKept := mergeLists_of_empty
  dirtyInfoKept := by
    rw [merge, mergeDirtyInfo_eq]
    exact mergeLists_of_empty
  messagesKept := mergeLists_of_empty

/-- Merging acts entry by entry, and once is enough. -/
theorem merge_entries {base : Record} (h : base.Distinct) (override : Record) :
    Merges base override (base.merge override) ∧
      (base.merge override).merge override = base.merge override :=
  ⟨merges_merge h override, merge_twice h override⟩

/-- A bare reference is replaced by an entry, over which another is laid: what only the earlier one
says stays, and of what both say the later one's stands. So it is with a known checksum. -/
theorem merge_entries_promoted :
    let base : Record :=
      { requirements := some [.bare "a.esp", .entry { name := "b.esp", display := some "B" }]
        dirtyInfo := some [{ crc := 1, itm := some 2, udr := some 3 }] }
    let override : Record :=
      { requirements := some
          [.entry { name := "a.esp", display := some "A", detail := some (.plain "old") },
            .bare "c.esp",
            .entry { name := "a.esp", detail := some (.plain "new"), condition := some "x" },
            .bare "a.esp"]
        dirtyInfo := some [{ crc := 1, udr := some 4 }, { crc := 2 }] }
    base.Distinct ∧ Merges base override (base.merge override) ∧
      (base.merge override).merge override = base.merge override ∧
      base.merge override =
        { requirements := some
            [.entry { name := "b.esp", display := some "B" },
              .entry
                { name := "a.esp"
                  display := some "A"
                  detail := some (.plain "new")
                  condition := some "x" },
              .bare "c.esp"]
          dirtyInfo := some [{ crc := 1, itm := some 2, udr := some 4 }, { crc := 2 }] } :=
  have ⟨hmerges, htwice⟩ := merge_entries (by decide) _
  ⟨by decide, hmerges, htwice, by decide⟩

end Record

end PluginAudit.Metadata
