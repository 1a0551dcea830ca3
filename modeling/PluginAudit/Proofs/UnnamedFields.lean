import Mathlib.Data.List.Forall2
import PluginAudit.Metadata.Schema

/-!
# Fields that a schema does not name

Two values are alike to a schema if they differ in nothing but fields that it does not name, at any
number of places. The same is kept of alike values, and what is kept of a value is alike to it: it
is the one of its kind that has no such fields.
-/

namespace PluginAudit.Metadata

section Lists

variable {α β γ : Type} {as : List α} {bs : List β}

theorem mapM_congr {f : α → Option γ} {g : β → Option γ}
    (h : List.Forall₂ (fun a b => f a = g b) as bs) : as.mapM f = bs.mapM g := by
  induction h with
  | nil => rfl
  | cons hab _ ih => rw [List.mapM_cons, List.mapM_cons, hab, ih]

theorem isSome_mapM (f : α → Option β) (as : List α) :
    (as.mapM f).isSome = as.all fun a => (f a).isSome := by
  induction as with
  | nil => rfl
  | cons a as ih =>
    rw [List.mapM_cons, List.all_cons, ← ih]
    cases f a with
    | none => rfl
    | some b => cases as.mapM f <;> rfl

theorem forall₂_of_mapM {f : α → Option β} (h : as.mapM f = some bs) :
    List.Forall₂ (fun a b => f a = some b) as bs := by
  induction as generalizing bs with
  | nil =>
    cases h
    exact .nil
  | cons a as ih =>
    rw [List.mapM_cons] at h
    obtain ⟨b, hb, h⟩ := Option.bind_eq_some_iff.1 h
    obtain ⟨bs, hbs, h⟩ := Option.bind_eq_some_iff.1 h
    cases h
    exact .cons hb (ih hbs)

theorem forall₂_trans {r : α → α → Prop} {as bs cs : List α}
    (htrans : ∀ a b c, r a b → r b c → r a c) (hab : List.Forall₂ r as bs)
    (hbc : List.Forall₂ r bs cs) : List.Forall₂ r as cs := by
  induction hab generalizing cs with
  | nil => exact hbc
  | cons h _ ih =>
    cases hbc with
    | cons h' hbc => exact .cons (htrans _ _ _ h h') (ih hbc)

/-- A second step that succeeds or not regardless of what the first one gives. -/
theorem isSome_bind {x : Option α} {f : α → Option β} {c : Bool} (h : ∀ a, (f a).isSome = c) :
    (x >>= f).isSome = (x.isSome && c) := by
  cases x with
  | none => rfl
  | some a => exact (h a).trans (Bool.true_and c).symm

end Lists

namespace Schema

/-- A schema is known by its parts. -/
@[elab_as_elim]
theorem induction {P : Schema → Prop} (text : ∀ test, P (text test))
    (number : ∀ test, P (number test)) (list : ∀ least item, P item → P (list least item))
    (textOr : ∀ test other, P other → P (textOr test other))
    (map : ∀ fields, (∀ f ∈ fields, P f.schema) → P (map fields)) : ∀ s, P s
  | .text test => text test
  | .number test => number test
  | .list least item => list least item (induction text number list textOr map item)
  | .textOr test other => textOr test other (induction text number list textOr map other)
  | .map fields => map fields fun f _ => induction text number list textOr map f.schema
termination_by s => sizeOf s
decreasing_by
  · simp only [Schema.list.sizeOf_spec]
    omega
  · simp only [Schema.textOr.sizeOf_spec]
    omega
  · next hf =>
    have hlt := List.sizeOf_lt_of_mem hf
    obtain ⟨key, isRequired, schema⟩ := f
    simp only [Schema.map.sizeOf_spec, Field.mk.sizeOf_spec] at hlt ⊢
    omega

mutual

/-- Two values differ at most in fields that a schema does not name. -/
inductive Alike : Schema → Value → Value → Prop where
  | same (s : Schema) (v : Value) : Alike s v v
  | list {least : Nat} {item : Schema} {vs ws : List Value} (h : AlikeItems item vs ws) :
      Alike (list least item) (.list vs) (.list ws)
  | textOr {test : String → Bool} {other : Schema} {v w : Value} (h : Alike other v w) :
      Alike (textOr test other) v w
  /-- Of two maps only the named fields count. -/
  | map {fields : List (Field Schema)} {entries entries' : List (String × Value)}
      (h : ∀ f ∈ fields, AlikeField f.schema (entries.lookup f.key) (entries'.lookup f.key)) :
      Alike (map fields) (.map entries) (.map entries')

/-- Two lists are alike item by item. -/
inductive AlikeItems : Schema → List Value → List Value → Prop where
  | nil {item : Schema} : AlikeItems item [] []
  | cons {item : Schema} {v w : Value} {vs ws : List Value} (h : Alike item v w)
      (hs : AlikeItems item vs ws) : AlikeItems item (v :: vs) (w :: ws)

/-- A field is absent from both maps, or alike in both. -/
inductive AlikeField : Schema → Option Value → Option Value → Prop where
  | absent {s : Schema} : AlikeField s none none
  | present {s : Schema} {v w : Value} (h : Alike s v w) : AlikeField s (some v) (some w)

end

theorem AlikeItems.forall₂ {item : Schema} :
    ∀ {vs ws : List Value}, AlikeItems item vs ws → List.Forall₂ (Alike item) vs ws
  | _, _, .nil => .nil
  | _, _, .cons h hs => .cons h hs.forall₂

theorem AlikeItems.of_forall₂ {item : Schema} {vs ws : List Value}
    (h : List.Forall₂ (Alike item) vs ws) : AlikeItems item vs ws := by
  induction h with
  | nil => exact .nil
  | cons h _ ih => exact .cons h ih

variable {s : Schema} {v w u : Value}

theorem AlikeField.symm {x y : Option Value} (h : AlikeField s x y)
    (hs : ∀ {v w}, Alike s v w → Alike s w v) : AlikeField s y x := by
  cases h with
  | absent => exact .absent
  | present h => exact .present (hs h)

theorem AlikeField.trans {x y z : Option Value} (hxy : AlikeField s x y) (hyz : AlikeField s y z)
    (hs : ∀ {v w u}, Alike s v w → Alike s w u → Alike s v u) : AlikeField s x z := by
  cases hxy with
  | absent => exact hyz
  | present h =>
    cases hyz with
    | present h' => exact .present (hs h h')

theorem Alike.symm (h : Alike s v w) : Alike s w v := by
  induction s using Schema.induction generalizing v w with
  | text test =>
    cases h
    exact .same _ _
  | number test =>
    cases h
    exact .same _ _
  | list least item ih =>
    cases h with
    | same => exact .same _ _
    | list h => exact .list (.of_forall₂ (.flip (h.forall₂.imp fun _ _ => ih)))
  | textOr test other ih =>
    cases h with
    | same => exact .same _ _
    | textOr h => exact .textOr (ih h)
  | map fields ih =>
    cases h with
    | same => exact .same _ _
    | map h => exact .map fun f hf => (h f hf).symm (ih f hf)

theorem Alike.trans (hvw : Alike s v w) (hwu : Alike s w u) : Alike s v u := by
  induction s using Schema.induction generalizing v w u with
  | text test =>
    cases hvw
    exact hwu
  | number test =>
    cases hvw
    exact hwu
  | list least item ih =>
    cases hvw with
    | same => exact hwu
    | list h =>
      cases hwu with
      | same => exact .list h
      | list h' => exact .list (.of_forall₂ (forall₂_trans (fun _ _ _ => ih) h.forall₂ h'.forall₂))
  | textOr test other ih =>
    cases hvw with
    | same => exact hwu
    | textOr h =>
      cases hwu with
      | same => exact .textOr h
      | textOr h' => exact .textOr (ih h h')
  | map fields ih =>
    cases hvw with
    | same => exact hwu
    | map h =>
      cases hwu with
      | same => exact .map h
      | map h' => exact .map fun f hf => (h f hf).trans (h' f hf) (ih f hf)

/-! ## What is accepted of alike values -/

/-- Values that differ are no texts. -/
theorem Alike.eq_or_text?_eq_none (h : Alike s v w) : v = w ∨ v.text? = none ∧ w.text? = none := by
  induction s using Schema.induction with
  | text test =>
    cases h
    exact .inl rfl
  | number test =>
    cases h
    exact .inl rfl
  | list least item ih =>
    cases h with
    | same => exact .inl rfl
    | list h => exact .inr ⟨rfl, rfl⟩
  | textOr test other ih =>
    cases h with
    | same => exact .inl rfl
    | textOr h => exact ih h
  | map fields ih =>
    cases h with
    | same => exact .inl rfl
    | map h => exact .inr ⟨rfl, rfl⟩

theorem accept?_textOr (h : v.text? = none) (test : String → Bool) (other : Schema) :
    (textOr test other).accept? v = other.accept? v := by
  cases v with
  | text s => cases h
  | _ => rfl

theorem acceptFields?_congr {fields : List (Field Schema)}
    {entries entries' : List (String × Value)}
    (h : ∀ f ∈ fields, (entries.lookup f.key).map f.schema.accept? =
      (entries'.lookup f.key).map f.schema.accept?) :
    acceptFields? fields entries = acceptFields? fields entries' := by
  induction fields with
  | nil => rfl
  | cons f fields ih =>
    obtain ⟨key, isRequired, schema⟩ := f
    obtain ⟨hfield, hothers⟩ := List.forall_mem_cons.1 h
    dsimp only at hfield
    rw [acceptFields?, acceptFields?, ih hothers]
    cases hv : entries.lookup key with
    | none =>
      rw [hv, Option.map_none, eq_comm, Option.map_eq_none_iff] at hfield
      rw [hfield]
    | some v =>
      rw [hv, Option.map_some, eq_comm, Option.map_eq_some_iff] at hfield
      obtain ⟨w, hw, hvw⟩ := hfield
      simp only [hw, hvw]

theorem AlikeField.map_accept? {x y : Option Value} (h : AlikeField s x y)
    (hs : ∀ v w, Alike s v w → s.accept? v = s.accept? w) :
    x.map s.accept? = y.map s.accept? := by
  cases h with
  | absent => rfl
  | present h => exact congrArg some (hs _ _ h)

theorem accept?_eq_of_alike (h : Alike s v w) : s.accept? v = s.accept? w := by
  induction s using Schema.induction generalizing v w with
  | text test =>
    cases h
    rfl
  | number test =>
    cases h
    rfl
  | list least item ih =>
    cases h with
    | same => rfl
    | list h =>
      have hitems := h.forall₂
      rw [accept?, accept?, hitems.length_eq, mapM_congr (hitems.imp fun _ _ => ih)]
  | textOr test other ih =>
    cases h with
    | same => rfl
    | textOr h =>
      rcases h.eq_or_text?_eq_none with rfl | ⟨hv, hw⟩
      · rfl
      · rw [accept?_textOr hv, accept?_textOr hw, ih h]
  | map fields ih =>
    cases h with
    | same => rfl
    | map h =>
      have hfields : ∀ f ∈ fields, _ := fun f hf => (h f hf).map_accept? fun _ _ => ih f hf
      rw [accept?, accept?, acceptFields?_congr hfields]

/-! ## What is kept of an accepted value -/

theorem fieldsNamedOnce_iff {fields : List (Field Schema)} :
    fieldsNamedOnce fields = true ↔
      (fields.map (·.key)).Nodup ∧ ∀ f ∈ fields, f.schema.namesOnce = true := by
  induction fields with
  | nil => simp [fieldsNamedOnce]
  | cons f fields ih =>
    obtain ⟨key, isRequired, schema⟩ := f
    simp only [fieldsNamedOnce, Bool.and_eq_true, List.all_eq_true, decide_eq_true_iff, ih,
      List.map_cons, List.nodup_cons, List.mem_map, not_exists, not_and, List.forall_mem_cons]
    tauto

theorem lookup_eq_none_of_acceptFields? {fields : List (Field Schema)}
    {entries kept : List (String × Value)} (h : acceptFields? fields entries = some kept)
    {key : String} (hkey : key ∉ fields.map (·.key)) : kept.lookup key = none := by
  induction fields generalizing kept with
  | nil =>
    cases h
    rfl
  | cons f fields ih =>
    obtain ⟨k, isRequired, schema⟩ := f
    obtain ⟨hne, hkey⟩ := not_or.1 (mt List.mem_cons.2 hkey)
    rw [acceptFields?] at h
    split at h
    · split at h
      · cases h
      · exact ih h hkey
    · obtain ⟨v, hv, h⟩ := Option.bind_eq_some_iff.1 h
      obtain ⟨others, hothers, h⟩ := Option.bind_eq_some_iff.1 h
      cases h
      rw [List.lookup_cons, beq_eq_false_iff_ne.2 hne]
      exact ih hothers hkey

/-- What is kept of a map has the named fields, each with what is kept of it. -/
theorem lookup_of_acceptFields? {fields : List (Field Schema)}
    {entries kept : List (String × Value)}
    (h : acceptFields? fields entries = some kept) (hnodup : (fields.map (·.key)).Nodup) :
    ∀ f ∈ fields, (entries.lookup f.key).map f.schema.accept? = (kept.lookup f.key).map some := by
  induction fields generalizing kept with
  | nil => exact fun _ hf => nomatch hf
  | cons f fields ih =>
    obtain ⟨key, isRequired, schema⟩ := f
    obtain ⟨hkey, hnodup⟩ := List.nodup_cons.1 hnodup
    rw [acceptFields?] at h
    split at h
    · next hnone =>
      split at h
      · cases h
      · refine List.forall_mem_cons.2 ⟨?_, ih h hnodup⟩
        dsimp only
        rw [hnone, lookup_eq_none_of_acceptFields? h hkey]
        rfl
    · next v hv =>
      obtain ⟨u, hu, h⟩ := Option.bind_eq_some_iff.1 h
      obtain ⟨others, hothers, h⟩ := Option.bind_eq_some_iff.1 h
      cases h
      refine List.forall_mem_cons.2 ⟨?_, fun f hf => ?_⟩
      · dsimp only
        rw [hv, List.lookup_cons_self, Option.map_some, hu]
        rfl
      · have hne : f.key ≠ key := fun he => hkey (List.mem_map.2 ⟨f, hf, he⟩)
        rw [ih hothers hnodup f hf, List.lookup_cons, beq_eq_false_iff_ne.2 hne]

theorem AlikeField.of_map_accept? {x y : Option Value}
    (h : x.map s.accept? = y.map some) (hs : ∀ v u, s.accept? v = some u → Alike s v u) :
    AlikeField s x y := by
  cases x with
  | none =>
    obtain rfl := Option.map_eq_none_iff.1 h.symm
    exact .absent
  | some v =>
    obtain ⟨u, rfl, hu⟩ := Option.map_eq_some_iff.1 h.symm
    exact .present (hs v u hu.symm)

/-- What is kept of a value is the value without the fields that are not named. -/
theorem alike_of_accept? (hs : s.namesOnce = true) (h : s.accept? v = some u) : Alike s v u := by
  induction s using Schema.induction generalizing v u with
  | text test =>
    cases v with
    | text t =>
      obtain ⟨-, h⟩ := Option.ite_none_right_eq_some.1 h
      cases h
      exact .same _ _
    | _ => cases h
  | number test =>
    cases v with
    | number x =>
      obtain ⟨-, h⟩ := Option.ite_none_right_eq_some.1 h
      cases h
      exact .same _ _
    | _ => cases h
  | list least item ih =>
    cases v with
    | list vs =>
      obtain ⟨-, h⟩ := Option.ite_none_right_eq_some.1 h
      obtain ⟨us, hus, rfl⟩ := Option.map_eq_some_iff.1 h
      exact .list (.of_forall₂ ((forall₂_of_mapM hus).imp fun _ _ => ih hs))
    | _ => cases h
  | textOr test other ih =>
    cases v with
    | text t =>
      by_cases ht : test t = true
      · obtain rfl : Value.text t = u := Option.some.inj ((if_pos ht).symm.trans h)
        exact .same _ _
      · exact .textOr (ih hs ((if_neg ht).symm.trans h))
    | _ => exact .textOr (ih hs h)
  | map fields ih =>
    obtain ⟨hnodup, hschemas⟩ := fieldsNamedOnce_iff.1 hs
    cases v with
    | map entries =>
      obtain ⟨kept, hkept, rfl⟩ := Option.map_eq_some_iff.1 h
      exact .map fun f hf =>
        .of_map_accept? (lookup_of_acceptFields? hkept hnodup f hf) fun _ _ =>
          ih f hf (hschemas f hf)
    | _ => cases h

/-- What is kept of a value is accepted, and nothing more is dropped from it. -/
theorem accept?_idem (hs : s.namesOnce = true) (h : s.accept? v = some u) : s.accept? u = some u :=
  (accept?_eq_of_alike (alike_of_accept? hs h)).symm.trans h

/-- Accepted values are alike if and only if the same is kept of them. -/
theorem alike_iff_accept?_eq (hs : s.namesOnce = true) (h : (s.accept? v).isSome = true) :
    Alike s v w ↔ s.accept? v = s.accept? w := by
  refine ⟨accept?_eq_of_alike, fun hvw => ?_⟩
  obtain ⟨u, hu⟩ := Option.isSome_iff_exists.1 h
  exact (alike_of_accept? hs hu).trans (alike_of_accept? hs (hvw ▸ hu)).symm

end Schema

end PluginAudit.Metadata
