import PluginAudit.Metadata.Merge
import PluginAudit.Proofs.KeyedLists

/-!
# Merging records one after the other

Three records about one plugin may be merged from either side (`Record.merge_assoc`), if the first
two name no file and no checksum twice. Each of the four lists is merged item by item, and for each
it is shown that its way of adding an item `Collects`.

References to files are the hard case, since a bare reference is not replaced in its place but taken
away, and what replaces it goes to the end. `addFileRef_around` carries the argument: what is done
for one name depends neither on what stands under another name nor on its being there.
-/

namespace PluginAudit.Metadata

/-! ## Lists that may be absent or empty -/

section

variable {α : Type} {P : List α → Prop} {add : α → List α → List α}

theorem getD_mergeLists (base ys : Option (List α)) :
    (mergeLists (addEach add) base ys).getD [] = addEach add (base.getD []) (ys.getD []) := by
  cases ys with
  | none => rfl
  | some ys => cases ys <;> rfl

theorem mergeLists_assoc (h : Collects (fun _ => True) P add) {base xs : Option (List α)}
    (hb : P (base.getD [])) (hx : P (xs.getD [])) (ys : Option (List α)) :
    mergeLists (addEach add) (mergeLists (addEach add) base xs) ys =
      mergeLists (addEach add) base (mergeLists (addEach add) xs ys) := by
  cases ys with
  | none => rfl
  | some ys =>
    cases ys with
    | nil => rfl
    | cons a ys =>
      -- What is merged into a list is not empty, so the outer merge on the right takes place.
      have houter : ∀ l : List α,
          mergeLists (addEach add) base (some (addEach add l (a :: ys))) =
            some (addEach add (base.getD []) (addEach add l (a :: ys))) := by
        intro l
        obtain ⟨b, bs, hl⟩ := List.exists_cons_of_ne_nil
          (h.addEach_ne_nil l (List.cons_ne_nil a ys))
        rw [hl]
        rfl
      have hassoc : addEach add (addEach add (base.getD []) (xs.getD [])) (a :: ys) =
          addEach add (base.getD []) (addEach add (xs.getD []) (a :: ys)) :=
        h.addEach_assoc hb hx fun _ _ => trivial
      show some (addEach add ((mergeLists (addEach add) base xs).getD []) (a :: ys)) =
        mergeLists (addEach add) base (some (addEach add (xs.getD []) (a :: ys)))
      rw [houter, getD_mergeLists, hassoc]

theorem mergeLists_keeps (h : Collects (fun _ => True) P add) {base : Option (List α)}
    (hb : P (base.getD [])) (ys : Option (List α)) :
    P ((mergeLists (addEach add) base ys).getD []) := by
  rw [getD_mergeLists]
  exact addEach_keeps (P := P) h.keeps hb fun _ _ => trivial

end

/-! ## Messages -/

/-- Adds a message unless it is there. -/
def addMessage (m : Message) (ms : List Message) : List Message :=
  if m ∈ ms then ms else ms ++ [m]

theorem mergeMessages_eq : mergeMessages = addEach addMessage := rfl

theorem addMessage_of_mem {m : Message} {ms : List Message} (h : m ∈ ms) : addMessage m ms = ms :=
  if_pos h

theorem mem_addMessage (m : Message) {n : Message} {ms : List Message} :
    n ∈ addMessage m ms ↔ n = m ∨ n ∈ ms := by
  unfold addMessage
  split
  next h => exact ⟨.inr, fun hn => hn.elim (fun he => he ▸ h) id⟩
  next h => simp [or_comm]

theorem mem_addEach_addMessage {n : Message} {base ms : List Message} :
    n ∈ addEach addMessage base ms ↔ n ∈ base ∨ n ∈ ms := by
  induction ms generalizing base with
  | nil => simp [addEach]
  | cons m ms ih =>
    rw [addEach_cons, ih, mem_addMessage, List.mem_cons]
    tauto

theorem collects_addMessage : Collects (fun _ => True) (fun _ => True) addMessage where
  nil := trivial
  keeps := fun _ _ _ _ => trivial
  ne_nil := by
    intro m ms
    have hm : m ∈ addMessage m ms := (mem_addMessage m).2 (.inl rfl)
    exact List.ne_nil_of_mem hm
  absorbs := by
    intro m base ms _ _ _
    by_cases h : m ∈ ms
    · rw [addMessage_of_mem h, addMessage_of_mem (mem_addEach_addMessage.2 (.inr h))]
    · have hadd : addMessage m ms = ms ++ [m] := if_neg h
      rw [hadd, addEach_concat]

/-! ## File references -/

theorem orElse_assoc {α : Type} (a b c : Option α) :
    (c <|> b <|> a) = ((c <|> b) <|> a) := by
  cases c <;> rfl

theorem FileEntry.overlay_assoc (a b c : FileEntry) :
    (a.overlay b).overlay c = a.overlay (b.overlay c) := by
  simp only [FileEntry.overlay, orElse_assoc]

theorem mergeFileRefs_eq : mergeFileRefs = addEach addFileRef := rfl

theorem addFileRef_of_ne {ref old : FileRef} (h : old.name ≠ ref.name) (refs : List FileRef) :
    addFileRef ref (old :: refs) = old :: addFileRef ref refs :=
  if_neg h

theorem addFileRef_known {n : String} {old : FileRef} (h : old.name = (FileRef.bare n).name)
    (refs : List FileRef) :
    addFileRef (.bare n) (old :: refs) = old :: refs := by
  refine (if_pos h).trans ?_
  cases old <;> rfl

theorem addFileRef_promote (e : FileEntry) (refs : List FileRef) :
    addFileRef (.entry e) (.bare e.name :: refs) = refs ++ [.entry e] :=
  if_pos rfl

theorem addFileRef_overlay {e e' : FileEntry} (h : e.name = e'.name) (refs : List FileRef) :
    addFileRef (.entry e') (.entry e :: refs) = .entry (e.overlay e') :: refs :=
  if_pos h

/-- References that stand before the first of a name are passed over. -/
theorem addFileRef_append {ref : FileRef} {xs : List FileRef} (h : ref.name ∉ xs.map FileRef.name)
    (ys : List FileRef) : addFileRef ref (xs ++ ys) = xs ++ addFileRef ref ys := by
  induction xs with
  | nil => rfl
  | cons x xs ih =>
    obtain ⟨hx, hxs⟩ := not_mem_map_cons.1 h
    rw [List.cons_append, addFileRef_of_ne hx.symm, ih hxs]
    rfl

theorem addFileRef_of_not_mem {ref : FileRef} {xs : List FileRef}
    (h : ref.name ∉ xs.map FileRef.name) : addFileRef ref xs = xs ++ [ref] := by
  have happend := addFileRef_append h []
  rwa [List.append_nil] at happend

theorem addFileRef_bare {n : String} {refs : List FileRef}
    (h : (FileRef.bare n).name ∈ refs.map FileRef.name) :
    addFileRef (.bare n) refs = refs := by
  obtain ⟨xs, old, ys, rfl, hold, hxs⟩ := exists_of_mem_map h
  rw [addFileRef_append hxs, addFileRef_known hold]

/-- What adding an entry does to the place of its name: there is one place before and one after for
every entry of that name, and what stands there then ends with the entry. -/
theorem addFileRef_entry {n : String} {refs : List FileRef} (hn : (refs.map FileRef.name).Nodup) :
    ∃ xs ys, ∃ under : FileEntry → FileEntry,
      n ∉ xs.map FileRef.name ∧ n ∉ ys.map FileRef.name ∧
      (∀ e e', under (e.overlay e') = (under e).overlay e') ∧
      ∀ e : FileEntry, e.name = n → (under e).name = n ∧
        addFileRef (.entry e) refs = xs ++ .entry (under e) :: ys := by
  by_cases h : n ∈ refs.map FileRef.name
  · obtain ⟨xs, old, ys, rfl, hold, hxs, hys⟩ := exists_of_nodup_map hn h
    cases old with
    | bare m =>
      refine ⟨xs ++ ys, [], id, ?_, List.not_mem_nil, fun _ _ => rfl, ?_⟩
      · rw [List.map_append]
        exact List.not_mem_append hxs hys
      · rintro e rfl
        obtain rfl : m = e.name := hold
        rw [addFileRef_append hxs, addFileRef_promote, List.append_assoc]
        exact ⟨rfl, rfl⟩
    | entry o =>
      refine ⟨xs, ys, o.overlay, hxs, hys, fun e e' => (FileEntry.overlay_assoc o e e').symm, ?_⟩
      rintro e rfl
      rw [addFileRef_append hxs, addFileRef_overlay hold]
      exact ⟨rfl, rfl⟩
  · refine ⟨refs, [], id, h, List.not_mem_nil, fun _ _ => rfl, ?_⟩
    rintro e rfl
    exact ⟨rfl, addFileRef_of_not_mem h⟩

/-- Up to order, adding a reference adds its name if it is new. -/
theorem perm_names_addFileRef (ref : FileRef) (refs : List FileRef) :
    ((addFileRef ref refs).map FileRef.name).Perm
      (if ref.name ∈ refs.map FileRef.name then refs.map FileRef.name
        else ref.name :: refs.map FileRef.name) := by
  by_cases h : ref.name ∈ refs.map FileRef.name
  · rw [if_pos h]
    obtain ⟨xs, old, ys, rfl, hold, hxs⟩ := exists_of_mem_map h
    rw [addFileRef_append hxs, List.map_append, List.map_append]
    refine List.Perm.append_left _ ?_
    cases ref with
    | bare n => rw [addFileRef_known hold]
    | entry e =>
      cases old with
      | bare m =>
        obtain rfl : m = e.name := hold
        rw [addFileRef_promote, List.map_append]
        exact List.perm_append_singleton _ _
      | entry o =>
        have ho : o.name = e.name := hold
        rw [addFileRef_overlay ho]
        simp [FileRef.name, FileEntry.overlay, ho]
  · rw [if_neg h, addFileRef_of_not_mem h, List.map_append]
    exact List.perm_append_singleton _ _

theorem mem_names_addFileRef {n : String} {ref : FileRef} {refs : List FileRef} :
    n ∈ (addFileRef ref refs).map FileRef.name ↔ n = ref.name ∨ n ∈ refs.map FileRef.name := by
  rw [(perm_names_addFileRef ref refs).mem_iff]
  split
  next h => exact ⟨.inr, fun hn => hn.elim (fun he => he ▸ h) id⟩
  next h => exact List.mem_cons

theorem mem_names_addEach {n : String} {base refs : List FileRef} :
    n ∈ (addEach addFileRef base refs).map FileRef.name ↔
      n ∈ base.map FileRef.name ∨ n ∈ refs.map FileRef.name := by
  induction refs generalizing base with
  | nil => simp [addEach]
  | cons r refs ih =>
    rw [addEach_cons, ih, mem_names_addFileRef, List.map_cons, List.mem_cons]
    tauto

theorem nodup_addFileRef (ref : FileRef) (refs : List FileRef)
    (h : (refs.map FileRef.name).Nodup) : ((addFileRef ref refs).map FileRef.name).Nodup := by
  rw [(perm_names_addFileRef ref refs).nodup_iff]
  split
  next hm => exact h
  next hm => exact List.nodup_cons.2 ⟨hm, h⟩

/-- What adding a reference does around the only place of another name: the same whatever stands
there, and the same without it. -/
theorem addFileRef_around {n : String} {ref : FileRef} (hr : ref.name ≠ n)
    {xs ys : List FileRef} (hx : n ∉ xs.map FileRef.name) (hy : n ∉ ys.map FileRef.name) :
    ∃ xs' ys', n ∉ xs'.map FileRef.name ∧ n ∉ ys'.map FileRef.name ∧
      addFileRef ref (xs ++ ys) = xs' ++ ys' ∧
      ∀ o : FileRef, o.name = n → addFileRef ref (xs ++ o :: ys) = xs' ++ o :: ys' := by
  by_cases h : ref.name ∈ xs.map FileRef.name
  · obtain ⟨as, old, bs, rfl, hold, has⟩ := exists_of_mem_map h
    rw [List.map_append, List.mem_append, not_or, not_mem_map_cons] at hx
    obtain ⟨hna, hno, hnb⟩ := hx
    -- The place of the reference's own name comes first, so nothing behind it matters.
    have hfront : ∀ zs, addFileRef ref (as ++ old :: bs ++ zs) =
        as ++ addFileRef ref (old :: (bs ++ zs)) := by
      intro zs
      rw [List.append_assoc, addFileRef_append has, List.cons_append]
    simp only [hfront]
    cases ref with
    | bare m =>
      refine ⟨as ++ old :: bs, ys, ?_, hy, ?_, ?_⟩
      · rw [List.map_append]
        exact List.not_mem_append hna (not_mem_map_cons.2 ⟨hno, hnb⟩)
      · rw [addFileRef_known hold, List.append_assoc, List.cons_append]
      · intro o _
        rw [addFileRef_known hold, List.append_assoc, List.cons_append]
    | entry e =>
      cases old with
      | bare m =>
        obtain rfl : m = e.name := hold
        refine ⟨as ++ bs, ys ++ [.entry e], ?_, ?_, ?_, ?_⟩
        · rw [List.map_append]
          exact List.not_mem_append hna hnb
        · rw [List.map_append]
          exact List.not_mem_append hy (List.not_mem_cons_of_ne_of_not_mem hno List.not_mem_nil)
        · simp [addFileRef_promote]
        · intro o _
          simp [addFileRef_promote]
      | entry o' =>
        refine ⟨as ++ .entry (o'.overlay e) :: bs, ys, ?_, hy, ?_, ?_⟩
        · rw [List.map_append]
          exact List.not_mem_append hna (not_mem_map_cons.2 ⟨hr.symm, hnb⟩)
        · simp [addFileRef_overlay hold]
        · intro o _
          simp [addFileRef_overlay hold]
  · refine ⟨xs, addFileRef ref ys, hx, ?_, addFileRef_append h ys, ?_⟩
    · rw [mem_names_addFileRef, not_or]
      exact ⟨hr.symm, hy⟩
    · rintro o rfl
      rw [addFileRef_append h, addFileRef_of_ne hr.symm]

/-- The same for a list of references none of which has that name. -/
theorem addEach_around {n : String} {refs : List FileRef} (hr : n ∉ refs.map FileRef.name)
    {xs ys : List FileRef} (hx : n ∉ xs.map FileRef.name) (hy : n ∉ ys.map FileRef.name) :
    ∃ xs' ys', n ∉ xs'.map FileRef.name ∧ n ∉ ys'.map FileRef.name ∧
      addEach addFileRef (xs ++ ys) refs = xs' ++ ys' ∧
      ∀ o : FileRef, o.name = n →
        addEach addFileRef (xs ++ o :: ys) refs = xs' ++ o :: ys' := by
  induction refs generalizing xs ys with
  | nil => exact ⟨xs, ys, hx, hy, rfl, fun _ _ => rfl⟩
  | cons r refs ih =>
    obtain ⟨hne, hrest⟩ := not_mem_map_cons.1 hr
    obtain ⟨xs₁, ys₁, hx₁, hy₁, hwithout, hwith⟩ := addFileRef_around hne.symm hx hy
    obtain ⟨xs₂, ys₂, hx₂, hy₂, hwithout₂, hwith₂⟩ := ih hrest hx₁ hy₁
    refine ⟨xs₂, ys₂, hx₂, hy₂, ?_, ?_⟩
    · rw [addEach_cons, hwithout, hwithout₂]
    · intro o ho
      rw [addEach_cons, hwith o ho, hwith₂ o ho]

/-- An entry that takes the place of a bare reference at the end of what is merged does so at the
end of the result. -/
theorem addEach_promote {e : FileEntry} {ys : List FileRef} (hy : e.name ∉ ys.map FileRef.name)
    (base : List FileRef) :
    addEach addFileRef base (ys ++ [.entry e]) =
      addFileRef (.entry e) (addEach addFileRef base (.bare e.name :: ys)) := by
  rw [addEach_concat, addEach_cons]
  by_cases h : e.name ∈ base.map FileRef.name
  · rw [addFileRef_bare h]
  · have hnil : e.name ∉ ([] : List FileRef).map FileRef.name := List.not_mem_nil
    obtain ⟨xs', ys', hx', hy', hwithout, hwith⟩ := addEach_around hy h hnil
    rw [List.append_nil] at hwithout
    have hnew : (FileRef.entry e).name ∉ (xs' ++ ys').map FileRef.name := by
      rw [List.map_append]
      exact List.not_mem_append hx' hy'
    have hbare : addFileRef (.bare e.name) base = base ++ [.bare e.name] :=
      addFileRef_of_not_mem h
    rw [hbare, hwith _ rfl, hwithout, addFileRef_of_not_mem hnew, addFileRef_append hx',
      addFileRef_promote, List.append_assoc]

/-- An entry overlaid on an entry of what is merged is overlaid on it in the result. -/
theorem addEach_overlay {o e : FileEntry} (ho : o.name = e.name) {ys : List FileRef}
    (hy : e.name ∉ ys.map FileRef.name) {base : List FileRef}
    (hb : (base.map FileRef.name).Nodup) :
    addEach addFileRef base (.entry (o.overlay e) :: ys) =
      addFileRef (.entry e) (addEach addFileRef base (.entry o :: ys)) := by
  obtain ⟨xs, zs, under, hx, hz, hunder, hadd⟩ := addFileRef_entry (n := e.name) hb
  obtain ⟨xs', zs', hx', -, -, hwith⟩ := addEach_around hy hx hz
  obtain ⟨ho', haddo⟩ := hadd o ho
  obtain ⟨he', hadde⟩ := hadd (o.overlay e) rfl
  rw [addEach_cons, hadde, hwith (.entry _) he', addEach_cons, haddo, hwith (.entry _) ho',
    addFileRef_append hx', addFileRef_overlay ho', hunder]

theorem collects_addFileRef :
    Collects (fun _ => True) (fun refs => (refs.map FileRef.name).Nodup) addFileRef where
  nil := List.nodup_nil
  keeps := fun ref refs _ => nodup_addFileRef ref refs
  ne_nil := by
    intro ref refs h
    have hm : ref.name ∈ (addFileRef ref refs).map FileRef.name :=
      mem_names_addFileRef.2 (.inl rfl)
    rw [h] at hm
    cases hm
  absorbs := by
    intro ref base refs _ hb hrefs
    by_cases h : ref.name ∈ refs.map FileRef.name
    · cases ref with
      | bare n => rw [addFileRef_bare h, addFileRef_bare (mem_names_addEach.2 (.inr h))]
      | entry e =>
        obtain ⟨xs, old, ys, rfl, hold, hxs, hys⟩ := exists_of_nodup_map hrefs h
        rw [addFileRef_append hxs, addEach_append, addEach_append]
        cases old with
        | bare m =>
          obtain rfl : m = e.name := hold
          rw [addFileRef_promote, addEach_promote hys]
        | entry o =>
          have hs : ((addEach addFileRef base xs).map FileRef.name).Nodup :=
            addEach_keeps (P := fun refs => (refs.map FileRef.name).Nodup)
              (fun ref refs (_ : True) => nodup_addFileRef ref refs) hb fun _ _ => trivial
          rw [addFileRef_overlay hold, addEach_overlay hold hys hs]
    · rw [addFileRef_of_not_mem h, addEach_concat]

/-! ## Dirty states -/

theorem addDirtyInfo_eq : addDirtyInfo = addKeyed DirtyInfo.crc DirtyInfo.overlay := by
  funext info infos
  induction infos with
  | nil => rfl
  | cons old infos ih =>
    rw [addKeyed, ← ih]
    rfl

theorem mergeDirtyInfo_eq : mergeDirtyInfo = addEach (addKeyed DirtyInfo.crc DirtyInfo.overlay) :=
  addDirtyInfo_eq ▸ rfl

theorem overlays_dirtyInfo : Overlays (fun _ => True) DirtyInfo.crc DirtyInfo.overlay where
  keepsKey := fun _ _ _ => rfl
  good_over := fun _ _ _ _ _ => trivial
  assoc := by
    intro a b c _ _ _
    simp only [DirtyInfo.overlay, orElse_assoc]

/-! ## Records -/

/-- A record whose lists name no file and no checksum twice. -/
structure Record.Distinct (r : Record) : Prop where
  requirements : ((r.requirements.getD []).map FileRef.name).Nodup
  incompatibilities : ((r.incompatibilities.getD []).map FileRef.name).Nodup
  dirtyInfo : ((r.dirtyInfo.getD []).map DirtyInfo.crc).Nodup

namespace Record

theorem distinct_iff (r : Record) : r.Distinct ↔
    ((r.requirements.getD []).map FileRef.name).Nodup ∧
      ((r.incompatibilities.getD []).map FileRef.name).Nodup ∧
      ((r.dirtyInfo.getD []).map DirtyInfo.crc).Nodup :=
  ⟨fun ⟨hr, hi, hd⟩ => ⟨hr, hi, hd⟩, fun ⟨hr, hi, hd⟩ => ⟨hr, hi, hd⟩⟩

instance (r : Record) : Decidable r.Distinct := decidable_of_iff _ (distinct_iff r).symm

theorem Distinct.keyed {r : Record} (h : r.Distinct) :
    Keyed (fun _ => True) DirtyInfo.crc (r.dirtyInfo.getD []) :=
  ⟨h.dirtyInfo, fun _ _ => trivial⟩

theorem Distinct.merge {a : Record} (ha : a.Distinct) (b : Record) : (a.merge b).Distinct where
  requirements := mergeLists_keeps collects_addFileRef ha.requirements b.requirements
  incompatibilities :=
    mergeLists_keeps collects_addFileRef ha.incompatibilities b.incompatibilities
  dirtyInfo := by
    have hkeyed := mergeLists_keeps (collects_addKeyed overlays_dirtyInfo) ha.keyed b.dirtyInfo
    rw [← mergeDirtyInfo_eq] at hkeyed
    exact hkeyed.nodup

/-- Three records are merged from either side. -/
theorem merge_assoc {a b : Record} (ha : a.Distinct) (hb : b.Distinct) (c : Record) :
    (a.merge b).merge c = a.merge (b.merge c) := by
  simp only [merge, mergeFileRefs_eq, mergeMessages_eq, mergeDirtyInfo_eq, mk.injEq]
  refine ⟨?_, ?_, ?_, ?_⟩
  · exact mergeLists_assoc collects_addFileRef ha.requirements hb.requirements _
  · exact mergeLists_assoc collects_addFileRef ha.incompatibilities hb.incompatibilities _
  · exact mergeLists_assoc collects_addMessage trivial trivial _
  · exact mergeLists_assoc (collects_addKeyed overlays_dirtyInfo) ha.keyed hb.keyed _

end Record

end PluginAudit.Metadata
