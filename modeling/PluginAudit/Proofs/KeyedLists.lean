import Mathlib.Data.List.Induction
import Mathlib.Data.List.Nodup

/-!
# Lists that grow item by item

Metadata is merged by adding the items of one list to another, one after the other. What is added
is put over an item of the same key or, if there is none, at the end. `Collects` says when it does
not matter whether the items of a third list are added to the second list or to the result of
merging the first two (`Collects.addEach_assoc`); `collects_addKeyed` says that this is so for the
plainest way of adding, in which an item of the same key is replaced in its place.
-/

namespace PluginAudit

section Keys

variable {α κ : Type} {key : α → κ} {k : κ}

theorem not_mem_map_cons {a : α} {l : List α} :
    k ∉ (a :: l).map key ↔ k ≠ key a ∧ k ∉ l.map key := by
  rw [List.map_cons, List.mem_cons, not_or]

/-- A list in which a key occurs, taken apart at its first place. -/
theorem exists_of_mem_map {l : List α} (h : k ∈ l.map key) :
    ∃ xs a ys, l = xs ++ a :: ys ∧ key a = k ∧ k ∉ xs.map key := by
  induction l with
  | nil => cases h
  | cons b l ih =>
    by_cases hb : key b = k
    · exact ⟨[], b, l, rfl, hb, List.not_mem_nil⟩
    · obtain ⟨xs, a, ys, rfl, ha, hxs⟩ := ih ((List.mem_cons.1 h).resolve_left (Ne.symm hb))
      exact ⟨b :: xs, a, ys, rfl, ha, not_mem_map_cons.2 ⟨Ne.symm hb, hxs⟩⟩

/-- A list without repeated keys, taken apart around one of them. -/
theorem exists_of_nodup_map {l : List α} (hn : (l.map key).Nodup) (h : k ∈ l.map key) :
    ∃ xs a ys, l = xs ++ a :: ys ∧ key a = k ∧ k ∉ xs.map key ∧ k ∉ ys.map key := by
  obtain ⟨xs, a, ys, rfl, ha, hxs⟩ := exists_of_mem_map h
  refine ⟨xs, a, ys, rfl, ha, hxs, ?_⟩
  rw [List.map_append] at hn
  exact ha ▸ (List.nodup_cons.1 (List.nodup_append.1 hn).2.1).1

/-- One more item is kept if it is new. -/
theorem eraseDups_concat [BEq κ] [LawfulBEq κ] (l : List κ) (a : κ) :
    (l ++ [a]).eraseDups = if a ∈ l then l.eraseDups else l.eraseDups ++ [a] := by
  rw [List.eraseDups_append]
  by_cases h : a ∈ l
  · have hnone : [a].removeAll l = [] := by simpa [List.removeAll] using h
    rw [if_pos h, hnone]
    exact List.append_nil _
  · have hone : [a].removeAll l = [a] := by simpa [List.removeAll] using h
    rw [if_neg h, hone]
    rfl

theorem eraseDups_eq_self [BEq κ] [LawfulBEq κ] {l : List κ} (h : l.Nodup) : l.eraseDups = l := by
  induction l using List.reverseRecOn with
  | nil => rfl
  | append_singleton l a ih =>
    rw [← List.concat_eq_append, List.nodup_concat] at h
    rw [eraseDups_concat, if_neg h.1, ih h.2]

end Keys

/-! ## Adding the items of a list -/

section Collects

variable {α : Type} {good : α → Prop} {P : List α → Prop} {add : α → List α → List α}

/-- Adds every item of a list. -/
def addEach (add : α → List α → List α) (base items : List α) : List α :=
  items.foldl (fun l a => add a l) base

theorem addEach_cons (base : List α) (a : α) (items : List α) :
    addEach add base (a :: items) = addEach add (add a base) items := rfl

theorem addEach_append (base xs ys : List α) :
    addEach add base (xs ++ ys) = addEach add (addEach add base xs) ys :=
  List.foldl_append

theorem addEach_concat (base xs : List α) (a : α) :
    addEach add base (xs ++ [a]) = add a (addEach add base xs) :=
  List.foldl_concat _ _ _ _

/-- What every good item keeps, all of them keep. -/
theorem addEach_keeps (h : ∀ a l, good a → P l → P (add a l)) {base items : List α} (hb : P base)
    (hi : ∀ a ∈ items, good a) : P (addEach add base items) := by
  induction items generalizing base with
  | nil => exact hb
  | cons a items ih =>
    obtain ⟨ha, hrest⟩ := List.forall_mem_cons.1 hi
    exact ih (h a base ha hb) hrest

/-- A way of adding good items to lists of a certain kind. Adding an item to a list and then that
list to another is adding the list and then the item. -/
structure Collects (good : α → Prop) (P : List α → Prop) (add : α → List α → List α) :
    Prop where
  nil : P []
  keeps : ∀ a l, good a → P l → P (add a l)
  ne_nil : ∀ a l, add a l ≠ []
  absorbs : ∀ {a base items}, good a → P base → P items →
    addEach add base (add a items) = add a (addEach add base items)

namespace Collects

theorem addEach_ne_nil (h : Collects good P add) (base : List α) {items : List α}
    (hi : items ≠ []) : addEach add base items ≠ [] := by
  obtain ⟨xs, a, rfl⟩ : ∃ xs a, items = xs ++ [a] :=
    ⟨_, _, (List.dropLast_append_getLast hi).symm⟩
  rw [addEach_concat]
  exact h.ne_nil a _

theorem addEach_assoc (h : Collects good P add) {base xs ys : List α} (hb : P base) (hx : P xs)
    (hy : ∀ a ∈ ys, good a) :
    addEach add (addEach add base xs) ys = addEach add base (addEach add xs ys) := by
  induction ys generalizing xs with
  | nil => rfl
  | cons a ys ih =>
    obtain ⟨ha, hrest⟩ := List.forall_mem_cons.1 hy
    calc addEach add (addEach add base xs) (a :: ys)
        = addEach add (add a (addEach add base xs)) ys := addEach_cons _ _ _
      _ = addEach add (addEach add base (add a xs)) ys := by rw [h.absorbs ha hb hx]
      _ = addEach add base (addEach add (add a xs) ys) := ih (h.keeps a xs ha hx) hrest

/-- Adding the same items twice is adding them once, if what is there is not changed by being added
again. -/
theorem addEach_twice (h : Collects good P add) (hself : ∀ a l, P l → a ∈ l → add a l = l)
    {base items : List α} (hb : P base) (hi : ∀ a ∈ items, good a) :
    addEach add (addEach add base items) items = addEach add base items := by
  -- What the items come to by themselves.
  obtain ⟨l, hl⟩ : ∃ l, addEach add [] items = l := ⟨_, rfl⟩
  have hP : P l := hl ▸ addEach_keeps (P := P) h.keeps h.nil hi
  have hself' : ∀ xs : List α, (∀ a ∈ xs, a ∈ l) → addEach add l xs = l := by
    intro xs hxs
    induction xs with
    | nil => rfl
    | cons a xs ih =>
      obtain ⟨ha, hrest⟩ := List.forall_mem_cons.1 hxs
      rw [addEach_cons, hself a l hP ha, ih hrest]
  have hbase : addEach add base items = addEach add base l := by
    have hassoc : addEach add (addEach add base []) items =
        addEach add base (addEach add [] items) := h.addEach_assoc hb h.nil hi
    rwa [hl] at hassoc
  have hagain : addEach add l items = l := by
    have hassoc : addEach add (addEach add l []) items = addEach add l (addEach add [] items) :=
      h.addEach_assoc hP h.nil hi
    rw [hl, hself' l fun _ ha => ha] at hassoc
    exact hassoc
  rw [hbase, h.addEach_assoc hb hP hi, hagain]

end Collects

end Collects

/-! ## Adding in the place of a key -/

section Keyed

variable {α κ : Type} [DecidableEq κ] {key : α → κ} {lay : α → α → α}

/-- Adds an item to a list: over the first item of its key, or at the end. -/
def addKeyed (key : α → κ) (lay : α → α → α) (a : α) : List α → List α
  | [] => [a]
  | b :: l => if key b = key a then lay b a :: l else b :: addKeyed key lay a l

theorem addKeyed_of_ne {a b : α} (h : key b ≠ key a) (l : List α) :
    addKeyed key lay a (b :: l) = b :: addKeyed key lay a l :=
  if_neg h

theorem addKeyed_over {a b : α} (h : key b = key a) (l : List α) :
    addKeyed key lay a (b :: l) = lay b a :: l :=
  if_pos h

theorem addKeyed_append {a : α} {xs : List α} (h : key a ∉ xs.map key) (ys : List α) :
    addKeyed key lay a (xs ++ ys) = xs ++ addKeyed key lay a ys := by
  induction xs with
  | nil => rfl
  | cons x xs ih =>
    obtain ⟨hx, hxs⟩ := not_mem_map_cons.1 h
    rw [List.cons_append, addKeyed_of_ne hx.symm, ih hxs]
    rfl

theorem addKeyed_of_not_mem {a : α} {l : List α} (h : key a ∉ l.map key) :
    addKeyed key lay a l = l ++ [a] := by
  have happend : addKeyed key lay a (l ++ []) = l ++ [a] := addKeyed_append h []
  rwa [List.append_nil] at happend

/-- Putting one item over another of its key keeps the key. -/
def KeepsKey (key : α → κ) (lay : α → α → α) : Prop :=
  ∀ a b, key a = key b → key (lay a b) = key b

/-- Adding an item adds its key at the end if it is new. -/
theorem keys_addKeyed (hk : KeepsKey key lay) (a : α) (l : List α) :
    (addKeyed key lay a l).map key =
      if key a ∈ l.map key then l.map key else l.map key ++ [key a] := by
  by_cases h : key a ∈ l.map key
  · rw [if_pos h]
    obtain ⟨xs, b, ys, rfl, hb, hxs⟩ := exists_of_mem_map h
    rw [addKeyed_append hxs, addKeyed_over hb]
    simp [hk b a hb, hb]
  · rw [if_neg h, addKeyed_of_not_mem h, List.map_append]
    rfl

theorem mem_keys_addKeyed (hk : KeepsKey key lay) {k : κ} {a : α} {l : List α} :
    k ∈ (addKeyed key lay a l).map key ↔ k = key a ∨ k ∈ l.map key := by
  rw [keys_addKeyed hk]
  split
  next h => exact ⟨.inr, fun hn => hn.elim (fun he => he ▸ h) id⟩
  next h => rw [List.mem_append, List.mem_singleton, or_comm]

/-- If no key is there twice, the keys are those of both lists as they come first. -/
theorem keys_addEach_addKeyed (hk : KeepsKey key lay) {base : List α} (hb : (base.map key).Nodup)
    (items : List α) :
    (addEach (addKeyed key lay) base items).map key = ((base ++ items).map key).eraseDups := by
  induction items using List.reverseRecOn with
  | nil =>
    rw [List.append_nil]
    exact (eraseDups_eq_self hb).symm
  | append_singleton items a ih =>
    have hmem : key a ∈ (addEach (addKeyed key lay) base items).map key ↔
        key a ∈ (base ++ items).map key := by
      rw [ih, List.mem_eraseDups]
    rw [addEach_concat, keys_addKeyed hk, ← List.append_assoc, List.map_append, List.map_singleton,
      eraseDups_concat, ih]
    simp only [← ih, hmem]

/-- What stands under a key after an item was added. -/
theorem find?_addKeyed (hk : KeepsKey key lay) (a : α) (l : List α) (k : κ) :
    (addKeyed key lay a l).find? (key · = k) =
      if key a = k then some (((l.find? (key · = k)).map (lay · a)).getD a)
      else l.find? (key · = k) := by
  induction l with
  | nil =>
    by_cases h : key a = k
    · simp [addKeyed, h]
    · simp [addKeyed, h]
  | cons b l ih =>
    by_cases hb : key b = key a
    · have hover : key (lay b a) = key a := hk b a hb
      rw [addKeyed_over hb]
      by_cases h : key a = k
      · simp [hover, hb, h]
      · simp [hover, hb, h]
    · rw [addKeyed_of_ne hb]
      by_cases h : key b = k
      · have ha : key a ≠ k := fun he => hb (h.trans he.symm)
        simp [h, ha]
      · rw [List.find?_cons_of_neg (by simpa using h), List.find?_cons_of_neg (by simpa using h),
          ih]

/-- Putting an item over one that is there does not interfere with adding another. -/
theorem addKeyed_comm (hk : KeepsKey key lay) {a b : α} {l : List α} (hb : key b ∈ l.map key)
    (hab : key a ≠ key b) :
    addKeyed key lay a (addKeyed key lay b l) = addKeyed key lay b (addKeyed key lay a l) := by
  induction l with
  | nil => cases hb
  | cons i l ih =>
    by_cases hi : key i = key b
    · have hia : key i ≠ key a := fun he => hab (he.symm.trans hi)
      have hover : key (lay i b) ≠ key a := fun he => hab (he.symm.trans (hk i b hi))
      rw [addKeyed_over hi, addKeyed_of_ne hover, addKeyed_of_ne hia, addKeyed_over hi]
    · have hrest : key b ∈ l.map key := (List.mem_cons.1 hb).resolve_left (Ne.symm hi)
      rw [addKeyed_of_ne hi]
      by_cases hia : key i = key a
      · have hover : key (lay i a) ≠ key b := fun he => hab ((hk i a hia).symm.trans he)
        rw [addKeyed_over hia, addKeyed_over hia, addKeyed_of_ne hover]
      · rw [addKeyed_of_ne hia, addKeyed_of_ne hia, addKeyed_of_ne hi, ih hrest]

theorem addEach_addKeyed_comm (hk : KeepsKey key lay) {b : α} {items : List α}
    (hi : key b ∉ items.map key) {base : List α} (hb : key b ∈ base.map key) :
    addEach (addKeyed key lay) (addKeyed key lay b base) items =
      addKeyed key lay b (addEach (addKeyed key lay) base items) := by
  induction items generalizing base with
  | nil => rfl
  | cons a items ih =>
    obtain ⟨ha, hrest⟩ := not_mem_map_cons.1 hi
    rw [addEach_cons, addKeyed_comm hk hb ha.symm,
      ih hrest ((mem_keys_addKeyed hk).2 (.inr hb)), addEach_cons]

/-- What putting good items over each other has to obey. -/
structure Overlays (good : α → Prop) (key : α → κ) (lay : α → α → α) : Prop where
  keepsKey : KeepsKey key lay
  good_over : ∀ a b, good a → good b → key a = key b → good (lay a b)
  assoc : ∀ a b c, good a → good b → good c → lay (lay a b) c = lay a (lay b c)

variable {good : α → Prop}

/-- Adding the one of two items put over the other is adding both. -/
theorem addKeyed_addKeyed (h : Overlays good key lay) {a b : α} (ha : good a) (hb : good b)
    (hab : key a = key b) {l : List α} (hl : ∀ i ∈ l, good i) :
    addKeyed key lay (lay a b) l = addKeyed key lay b (addKeyed key lay a l) := by
  have hover : key (lay a b) = key b := h.keepsKey a b hab
  induction l with
  | nil => exact (addKeyed_over hab []).symm
  | cons i l ih =>
    obtain ⟨hi, hrest⟩ := List.forall_mem_cons.1 hl
    by_cases hia : key i = key a
    · have hib : key (lay i a) = key b := (h.keepsKey i a hia).trans hab
      rw [addKeyed_over (hia.trans (hab.trans hover.symm)), addKeyed_over hia, addKeyed_over hib,
        h.assoc i a b hi ha hb]
    · have hib : key i ≠ key b := fun he => hia (he.trans hab.symm)
      have hio : key i ≠ key (lay a b) := fun he => hib (he.trans hover)
      rw [addKeyed_of_ne hio, addKeyed_of_ne hia, addKeyed_of_ne hib, ih hrest]

theorem good_of_mem_addKeyed (h : Overlays good key lay) {a : α} {l : List α} (ha : good a)
    (hl : ∀ i ∈ l, good i) : ∀ i ∈ addKeyed key lay a l, good i := by
  induction l with
  | nil => exact List.forall_mem_singleton.2 ha
  | cons b l ih =>
    obtain ⟨hb, hrest⟩ := List.forall_mem_cons.1 hl
    by_cases hab : key b = key a
    · rw [addKeyed_over hab]
      exact List.forall_mem_cons.2 ⟨h.good_over b a hb ha hab, hrest⟩
    · rw [addKeyed_of_ne hab]
      exact List.forall_mem_cons.2 ⟨hb, ih hrest⟩

/-- Good items, no two of one key. -/
structure Keyed (good : α → Prop) (key : α → κ) (l : List α) : Prop where
  nodup : (l.map key).Nodup
  good : ∀ a ∈ l, good a

theorem collects_addKeyed (h : Overlays good key lay) :
    Collects good (Keyed good key) (addKeyed key lay) where
  nil := ⟨List.nodup_nil, fun _ ha => absurd ha List.not_mem_nil⟩
  keeps := by
    intro a l ha hl
    refine ⟨?_, good_of_mem_addKeyed h ha hl.good⟩
    rw [keys_addKeyed h.keepsKey]
    split
    next hm => exact hl.nodup
    next hm => exact List.nodup_append'.2 ⟨hl.nodup, List.nodup_singleton _, by simpa using hm⟩
  ne_nil := by
    intro a l hnil
    have hm : key a ∈ (addKeyed key lay a l).map key := (mem_keys_addKeyed h.keepsKey).2 (.inl rfl)
    rw [hnil] at hm
    cases hm
  absorbs := by
    intro a base items ha hbase hitems
    by_cases hm : key a ∈ items.map key
    · -- What stands behind the place of the key has other keys, so it can be added before.
      obtain ⟨xs, b, ys, rfl, hb, hxs, hys⟩ := exists_of_nodup_map hitems.nodup hm
      obtain ⟨hgx, hgb, -⟩ := List.forall_mem_append.1 hitems.good |>.imp_right
        List.forall_mem_cons.1
      have hgood : ∀ i ∈ addEach (addKeyed key lay) base xs, good i :=
        addEach_keeps (P := fun l => ∀ i ∈ l, good i) (fun _ _ => good_of_mem_addKeyed h)
          hbase.good hgx
      have hmem : key a ∈
          (addKeyed key lay b (addEach (addKeyed key lay) base xs)).map key :=
        (mem_keys_addKeyed h.keepsKey).2 (.inl hb.symm)
      rw [addKeyed_append hxs, addKeyed_over hb, addEach_append, addEach_append, addEach_cons,
        addEach_cons, addKeyed_addKeyed h hgb ha hb hgood,
        addEach_addKeyed_comm h.keepsKey hys hmem]
    · rw [addKeyed_of_not_mem hm, addEach_concat]

/-- Adding an item that is there changes nothing. -/
theorem addKeyed_self {a : α} (hself : lay a a = a) {l : List α} (h : (l.map key).Nodup)
    (ha : a ∈ l) : addKeyed key lay a l = l := by
  induction l with
  | nil => cases ha
  | cons b l ih =>
    obtain ⟨hb, hrest⟩ := List.nodup_cons.1 h
    rcases List.mem_cons.1 ha with rfl | ha
    · rw [addKeyed_over rfl, hself]
    · have hne : key b ≠ key a := fun heq => hb (heq ▸ List.mem_map_of_mem ha)
      rw [addKeyed_of_ne hne, ih hrest ha]

end Keyed

end PluginAudit
