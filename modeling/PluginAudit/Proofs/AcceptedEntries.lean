import PluginAudit.Metadata.Document
import PluginAudit.Proofs.UnnamedFields

/-!
# Reading what a schema accepts

A reader reads by a schema if it succeeds on just the values that the schema accepts, and finds in a
value what it finds in the part of it that is kept. Readers of maps ask for one field after the
other; they read by the list of these fields, and so does the reader of entries.
-/

namespace PluginAudit.Metadata

open Value Schema

variable {α β : Type}

/-- A reader that reads just what a schema accepts. -/
structure ReadBy (read? : Value → Option α) (s : Schema) : Prop where
  isSome_eq : ∀ v, (read? v).isSome = (s.accept? v).isSome
  /-- What is not kept is not read. -/
  eq_of_accept? : ∀ {v u}, s.accept? v = some u → read? v = read? u

namespace ReadBy

variable {read? : Value → Option α} {s : Schema}

/-- Reading what is kept of a value. -/
theorem eq_bind (h : ReadBy read? s) (v : Value) : read? v = (s.accept? v).bind read? := by
  cases hv : s.accept? v with
  | none =>
    have hnone : (read? v).isSome = false := by rw [h.isSome_eq, hv, Option.isSome_none]
    exact Option.not_isSome_iff_eq_none.1 (Bool.eq_false_iff.1 hnone)
  | some u => exact h.eq_of_accept? hv

theorem eq_of_alike (h : ReadBy read? s) {v w : Value} (hvw : Alike s v w) : read? v = read? w := by
  rw [h.eq_bind v, accept?_eq_of_alike hvw, ← h.eq_bind w]

/-! ## Texts, numbers and lists -/

theorem eq_text_of_text? {v : Value} {t : String} (h : v.text? = some t) : v = .text t := by
  cases v with
  | text t' => rw [Option.some.inj h]
  | _ => cases h

theorem text {test : String → Bool} (hnone : ∀ v, v.text? = none → read? v = none)
    (htext : ∀ t, (read? (.text t)).isSome = test t) : ReadBy read? (text test) where
  isSome_eq v := by
    cases v with
    | text t =>
      rw [htext, accept?]
      cases test t <;> rfl
    | _ => rw [hnone _ rfl]; rfl
  eq_of_accept? {v u} h := by
    cases v with
    | text t => rw [Option.some.inj (Option.ite_none_right_eq_some.1 h).2]
    | _ => cases h

theorem number {test : Binary64 → Bool} (hnone : ∀ v, v.nat? = none → read? v = none)
    (hnumber : ∀ x, (read? (.number x)).isSome = test x) : ReadBy read? (number test) where
  isSome_eq v := by
    cases v with
    | number x =>
      rw [hnumber, accept?]
      cases test x <;> rfl
    | _ => rw [hnone _ rfl]; rfl
  eq_of_accept? {v u} h := by
    cases v with
    | number x => rw [Option.some.inj (Option.ite_none_right_eq_some.1 h).2]
    | _ => cases h

theorem isSome_mapM_eq (h : ReadBy read? s) (vs : List Value) :
    (vs.mapM read?).isSome = (vs.mapM s.accept?).isSome := by
  rw [isSome_mapM, isSome_mapM]
  simp only [h.isSome_eq]

theorem listOf? (h : ReadBy read? s) : ReadBy (listOf? read?) (list 0 s) where
  isSome_eq v := by
    cases v with
    | list vs => simpa [Metadata.listOf?, list?, accept?] using h.isSome_mapM_eq vs
    | _ => rfl
  eq_of_accept? {v u} hv := by
    cases v with
    | list vs =>
      obtain ⟨us, hus, rfl⟩ := Option.map_eq_some_iff.1 (Option.ite_none_right_eq_some.1 hv).2
      exact mapM_congr ((forall₂_of_mapM hus).imp fun _ _ => h.eq_of_accept?)
    | _ => cases hv

theorem nonemptyList (h : ReadBy read? s) :
    ReadBy (fun v => (Metadata.listOf? read? v).filter (!·.isEmpty)) (list 1 s) where
  isSome_eq v := by
    cases v with
    | list vs =>
      cases vs with
      | nil => rfl
      | cons v vs =>
        have hkept : (Metadata.listOf? read? (.list (v :: vs))).filter (!·.isEmpty) =
            (v :: vs).mapM read? := by
          rw [Metadata.listOf?, list?, Option.bind_some]
          cases has : (v :: vs).mapM read? with
          | none => rfl
          | some as =>
            cases forall₂_of_mapM has
            rfl
        have hlength : 1 ≤ (v :: vs).length := Nat.succ_pos _
        rw [hkept, h.isSome_mapM_eq, accept?, if_pos hlength, Option.isSome_map]
    | _ => rfl
  eq_of_accept? {v u} hv := by
    cases v with
    | list vs =>
      have hlist : (list 0 s).accept? (.list vs) = some u :=
        (if_pos (Nat.zero_le _)).trans (Option.ite_none_right_eq_some.1 hv).2
      exact congrArg (Option.filter _) (h.listOf?.eq_of_accept? hlist)
    | _ => cases hv

/-- A text is read in a way of its own, and anything else by another schema. -/
theorem textOr {test : String → Bool} {other? : Value → Option β} {g : β → α}
    (h : ReadBy other? s) (hs : s.namesOnce = true) (hreject : ∀ t, s.accept? (.text t) = none)
    (htext : ∀ t, (read? (.text t)).isSome = test t)
    (hother : ∀ v, v.text? = none → read? v = (other? v).map g) :
    ReadBy read? (textOr test s) where
  isSome_eq v := by
    cases hv : v.text? with
    | none => rw [hother v hv, Option.isSome_map, h.isSome_eq, accept?_textOr hv]
    | some t =>
      obtain rfl := eq_text_of_text? hv
      rw [htext, accept?, hreject]
      cases test t <;> rfl
  eq_of_accept? {v u} hu := by
    cases hv : v.text? with
    | none =>
      rw [accept?_textOr hv] at hu
      -- what is kept of it is no text either, so it is read by the other schema as well
      rcases (alike_of_accept? hs hu).eq_or_text?_eq_none with rfl | ⟨-, hu'⟩
      · rfl
      · rw [hother v hv, hother u hu', h.eq_of_accept? hu]
    | some t =>
      obtain rfl := eq_text_of_text? hv
      rw [accept?, hreject] at hu
      rw [Option.some.inj (Option.ite_none_right_eq_some.1 hu).2]

/-- What is read of a field, if nothing but what is kept of it changes. -/
theorem map_eq (h : ReadBy read? s) {x y : Option Value} (hxy : x.map s.accept? = y.map some) :
    x.map read? = y.map read? := by
  cases x with
  | none => rw [Option.map_eq_none_iff.1 hxy.symm]
  | some v =>
    obtain ⟨u, rfl, hu⟩ := Option.map_eq_some_iff.1 hxy.symm
    exact congrArg some (h.eq_of_accept? hu.symm)

end ReadBy

/-! ## Maps -/

theorem required_eq (read? : Value → Option α) (v : Value) (key : String) :
    required read? v key = ((v.field? key).map read?).join := by
  rw [required]
  cases v.field? key <;> rfl

theorem optional_eq (read? : Value → Option α) (v : Value) (key : String) :
    optional read? v key = ((v.field? key).map read?).elim (some none) (·.map some) := by
  rw [optional]
  cases v.field? key <;> rfl

/-- Whether a map has a field in an accepted form, or may go without it. -/
def Field.isMet (f : Field Schema) (v : Value) : Bool :=
  match v.field? f.key with
  | none => !f.isRequired
  | some w => (f.schema.accept? w).isSome

/-- A reader that reads just certain fields of a map, and needs them in an accepted form. -/
structure ReadByFields (read? : Value → Option α) (fields : List (Field Schema)) : Prop where
  isSome_eq : ∀ v, (read? v).isSome = fields.all (·.isMet v)
  eq_of_kept : ∀ {v u : Value},
    (∀ f ∈ fields, (v.field? f.key).map f.schema.accept? = (u.field? f.key).map some) →
      read? v = read? u

theorem isSome_acceptFields? (fields : List (Field Schema)) (entries : List (String × Value)) :
    (acceptFields? fields entries).isSome = fields.all (·.isMet (.map entries)) := by
  induction fields with
  | nil => rfl
  | cons f fields ih =>
    obtain ⟨key, isRequired, schema⟩ := f
    rw [acceptFields?, List.all_cons, ← ih, Field.isMet, field?]
    cases entries.lookup key with
    | none => cases isRequired <;> rfl
    | some v => exact isSome_bind fun _ => Option.isSome_bind ..

namespace ReadByFields

variable {read? : Value → Option α} {s : Schema} {fields : List (Field Schema)}
  {next? : α → Value → Option β}

theorem done (a : α) : ReadByFields (fun _ => some a) [] :=
  ⟨fun _ => rfl, fun _ => rfl⟩

theorem required (h : ReadBy read? s) (key : String) (hnext : ∀ a, ReadByFields (next? a) fields) :
    ReadByFields (fun v => Metadata.required read? v key >>= (next? · v))
      (⟨key, true, s⟩ :: fields) where
  isSome_eq v := by
    have hfield : (Metadata.required read? v key).isSome = Field.isMet ⟨key, true, s⟩ v := by
      rw [required_eq, Field.isMet]
      cases v.field? key with
      | none => rfl
      | some w => exact h.isSome_eq w
    rw [isSome_bind fun a => (hnext a).isSome_eq v, hfield, List.all_cons]
  eq_of_kept {v u} hvu := by
    obtain ⟨hfield, hothers⟩ := List.forall_mem_cons.1 hvu
    simp only [required_eq, h.map_eq hfield, fun a => (hnext a).eq_of_kept hothers]

theorem optional {next? : Option α → Value → Option β} (h : ReadBy read? s) (key : String)
    (hnext : ∀ a, ReadByFields (next? a) fields) :
    ReadByFields (fun v => Metadata.optional read? v key >>= (next? · v))
      (⟨key, false, s⟩ :: fields) where
  isSome_eq v := by
    have hfield : (Metadata.optional read? v key).isSome = Field.isMet ⟨key, false, s⟩ v := by
      rw [optional_eq, Field.isMet]
      cases v.field? key with
      | none => rfl
      | some w => exact Option.isSome_map.trans (h.isSome_eq w)
    rw [isSome_bind fun a => (hnext a).isSome_eq v, hfield, List.all_cons]
  eq_of_kept {v u} hvu := by
    obtain ⟨hfield, hothers⟩ := List.forall_mem_cons.1 hvu
    simp only [optional_eq, h.map_eq hfield, fun a => (hnext a).eq_of_kept hothers]

/-- A reader of maps has to ask for a field that has to be there: it reads nothing but maps. -/
theorem readBy {key : String} (h : ReadByFields read? (⟨key, true, s⟩ :: fields))
    (hs : (map (⟨key, true, s⟩ :: fields)).namesOnce = true) :
    ReadBy read? (map (⟨key, true, s⟩ :: fields)) where
  isSome_eq v := by
    cases v with
    | map entries => rw [h.isSome_eq, accept?, Option.isSome_map, isSome_acceptFields?]
    -- the first field is missing
    | _ => exact h.isSome_eq _
  eq_of_accept? {v u} hv := by
    cases v with
    | map entries =>
      obtain ⟨kept, hkept, rfl⟩ := Option.map_eq_some_iff.1 hv
      exact h.eq_of_kept (lookup_of_acceptFields? hkept (fieldsNamedOnce_iff.1 hs).1)
    | _ => cases hv

end ReadByFields

/-! ## The parts of an entry -/

theorem readBy_text : ReadBy text? anyText := .text (fun _ h => h) fun _ => rfl

theorem isSome_nonempty? (t : String) : (nonempty? (.text t)).isSome = decide (t ≠ "") := by
  rw [nonempty?, text?]
  by_cases ht : t = "" <;> simp [ht]

theorem readBy_nonempty : ReadBy nonempty? nonempty :=
  .text (fun v h => by rw [nonempty?, h]; rfl) isSome_nonempty?

theorem readBy_messageType :
    ReadBy MessageType.ofValue? (.text fun s => (MessageType.ofName? s).isSome) :=
  .text (fun v h => by rw [MessageType.ofValue?, h]; rfl) fun _ => rfl

theorem readBy_count : ReadBy nat? count := .number (fun _ h => h) fun _ => rfl

theorem readBy_crc : ReadBy DirtyInfo.crcOfValue? crc :=
  .number (fun v h => by rw [DirtyInfo.crcOfValue?, h]; rfl) fun x => by
    rw [DirtyInfo.crcOfValue?, nat?, Option.isSome_map]
    cases x.toNat? with
    | none => rfl
    | some n => by_cases hn : n < UInt32.size <;> simp [hn]

theorem readBy_localizedText : ReadBy LocalizedText.ofValue? localizedText :=
  ReadByFields.readBy (.required readBy_text _ fun _ => .required readBy_text _ fun _ => .done _)
    (by decide)

theorem readBy_textContent : ReadBy TextContent.ofValue? textContent :=
  .textOr readBy_localizedText.nonemptyList (by decide) (fun _ => rfl) (fun _ => rfl) fun v hv => by
    cases v with
    | text t => cases hv
    | _ => rfl

theorem readBy_fileEntry : ReadBy FileRef.entryOfValue? fileEntry :=
  ReadByFields.readBy
    (.required readBy_nonempty _ fun _ => .optional readBy_text _ fun _ =>
      .optional readBy_textContent _ fun _ => .optional readBy_text _ fun _ => .done _)
    (by decide)

theorem readBy_fileRef : ReadBy FileRef.ofValue? fileRef :=
  .textOr readBy_fileEntry (by decide) (fun _ => rfl)
    (fun t => Option.isSome_map.trans (isSome_nonempty? t)) fun v hv => by
    cases v with
    | text t => cases hv
    | _ => rfl

theorem readBy_message : ReadBy Message.ofValue? message :=
  ReadByFields.readBy
    (.required readBy_messageType _ fun _ => .required readBy_textContent _ fun _ =>
      .optional readBy_text.listOf? _ fun _ => .optional readBy_text _ fun _ => .done _)
    (by decide)

theorem readBy_dirtyInfo : ReadBy DirtyInfo.ofValue? dirtyInfo :=
  ReadByFields.readBy
    (.required readBy_crc _ fun _ => .optional readBy_text _ fun _ =>
      .optional readBy_textContent _ fun _ => .optional readBy_count _ fun _ =>
      .optional readBy_count _ fun _ => .optional readBy_count _ fun _ => .done _)
    (by decide)

theorem readBy_entry : ReadBy Entry.ofValue? entry :=
  ReadByFields.readBy
    (.required readBy_nonempty _ fun _ => .optional readBy_fileRef.listOf? _ fun _ =>
      .optional readBy_fileRef.listOf? _ fun _ => .optional readBy_message.listOf? _ fun _ =>
      .optional readBy_dirtyInfo.listOf? _ fun _ => .done _)
    (by decide)

/-- Fields that the schema of entries does not name never matter, wherever they stand: without them
a value is accepted as before and says the same. -/
theorem Entry.ofValue?_of_alike {v w : Value} (h : Alike entry v w) :
    (entry.accept? v).isSome = (Entry.ofValue? v).isSome ∧
      entry.accept? v = entry.accept? w ∧ Entry.ofValue? v = Entry.ofValue? w ∧
      ∀ u, entry.accept? v = some u →
        entry.accept? u = some u ∧ Entry.ofValue? u = Entry.ofValue? v := by
  refine ⟨(readBy_entry.isSome_eq v).symm, accept?_eq_of_alike h, readBy_entry.eq_of_alike h,
    fun u hu => ⟨?_, ?_⟩⟩
  · exact accept?_idem (by decide) hu
  · exact (readBy_entry.eq_of_accept? hu).symm

/-- An entry whose maps may have more fields, each under a key that is only named elsewhere. -/
def Entry.sample (more : String → List (String × Value)) : Value :=
  let texts := .list [.map ([("lang", .text "en"), ("text", .text "Clean it.")] ++ more "name")]
  .map ([("name", .text "A.esp"),
    ("req", .list [.text "B.esp",
      .map ([("name", .text "C.esp"), ("detail", texts)] ++ more "crc")]),
    ("msg", .list [.map ([("type", .text "warn"), ("content", texts)] ++ more "udr")]),
    ("dirty", .list [.map ([("crc", .number (.finite false 1 0)), ("detail", texts)] ++
      more "subs")])] ++ more "lang")

theorem Entry.ofValue?_sample :
    Alike entry (sample fun key => [(key, .null)]) (sample fun _ => []) ∧
      Entry.ofValue? (sample fun key => [(key, .null)]) = Entry.ofValue? (sample fun _ => []) ∧
      entry.accept? (sample fun key => [(key, .null)]) = some (sample fun _ => []) ∧
      entry.accept? (sample fun _ => []) = some (sample fun _ => []) := by
  have halike : Alike entry (sample fun key => [(key, .null)]) (sample fun _ => []) :=
    (alike_iff_accept?_eq rfl rfl).2 rfl
  obtain ⟨-, -, hsame, hkept⟩ := ofValue?_of_alike halike
  exact ⟨halike, hsame, rfl, (hkept _ rfl).1⟩

/-! ## Documents -/

theorem storeEntries_of_alike {vs ws : List Value} (h : List.Forall₂ (Alike entry) vs ws)
    (source : String) (store : Store) (index : Nat) :
    storeEntries source store index vs = storeEntries source store index ws := by
  induction h generalizing store index with
  | nil => rfl
  | cons h _ ih => simp only [storeEntries, readBy_entry.eq_of_alike h, ih]

/-- What a document says of plugins does not depend on what else there is in it. -/
theorem Store.ofValue_of_alike {v w : Value} (h : Alike (map [⟨"plugins", true, list 0 entry⟩]) v w)
    (source : String) : Store.ofValue source v = Store.ofValue source w := by
  cases h with
  | same => rfl
  | @map _ entries entries' h =>
    have hplugins := h _ (List.mem_singleton_self _)
    rw [Store.ofValue, Store.ofValue, field?, field?]
    generalize entries.lookup "plugins" = x, entries'.lookup "plugins" = y at hplugins ⊢
    cases hplugins with
    | absent => rfl
    | present h =>
      cases h with
      | same => rfl
      | list h => simp only [Option.bind_some, list?, storeEntries_of_alike h.forall₂]

end PluginAudit.Metadata
