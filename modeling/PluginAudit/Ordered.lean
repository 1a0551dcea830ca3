/-!
# Maps in order of insertion

Metadata and declared versions keep their entries in the order in which their keys were first
stored, and storing under a key again changes the value but not the place. Such a map is a list of
pairs with distinct keys.
-/

namespace PluginAudit

/-- A map in order of insertion. -/
abbrev Ordered (α : Type) := List (String × α)

namespace Ordered

variable {α : Type}

def get? (m : Ordered α) (key : String) : Option α := m.lookup key

/-- Stores a value under a key, at the key's place or else at the end. -/
def put : Ordered α → String → α → Ordered α
  | [], key, a => [(key, a)]
  | (k, b) :: m, key, a => if k = key then (k, a) :: m else (k, b) :: put m key a

def keys (m : Ordered α) : List String := m.map (·.1)

/-- Storing pairs one after the other. -/
def ofPairs (pairs : List (String × α)) : Ordered α := pairs.foldl (fun m (k, a) => m.put k a) []

/-- A value just stored is found, and the other keys find what they found before. -/
theorem get?_put (m : Ordered α) (key k : String) (a : α) :
    (m.put key a).get? k = if k = key then some a else m.get? k := by
  induction m with
  | nil =>
    by_cases h : k = key
    · subst h
      simp [put, get?]
    · simp [put, get?, List.lookup_cons, h, beq_eq_false_iff_ne.2 h]
  | cons p m ih =>
    obtain ⟨k', b⟩ := p
    by_cases hk : k' = key
    · subst hk
      by_cases h : k = k'
      · subst h
        simp [put, get?]
      · simp [put, get?, List.lookup_cons, h, beq_eq_false_iff_ne.2 h]
    · by_cases h : k = k'
      · subst h
        simp [put, get?, hk]
      · have hb : (k == k') = false := beq_eq_false_iff_ne.2 h
        simpa [put, get?, List.lookup_cons, hk, hb] using ih

/-- Storing keeps the keys, and adds a new one at the end. -/
theorem keys_put (m : Ordered α) (key : String) (a : α) :
    (m.put key a).keys = if key ∈ m.keys then m.keys else m.keys ++ [key] := by
  induction m with
  | nil => simp [put, keys]
  | cons p m ih =>
    obtain ⟨k', b⟩ := p
    by_cases hk : k' = key
    · simp [put, keys, hk]
    · have hm : key ∈ keys ((k', b) :: m) ↔ key ∈ keys m := by simp [keys, Ne.symm hk]
      have hp : keys (put ((k', b) :: m) key a) = k' :: keys (put m key a) := by
        simp [put, keys, hk]
      rw [hp, ih]
      by_cases h : key ∈ keys m
      · rw [if_pos h, if_pos (hm.2 h)]
        rfl
      · rw [if_neg h, if_neg fun h' => h (hm.1 h')]
        rfl

theorem isSome_get? (m : Ordered α) (key : String) : (m.get? key).isSome ↔ key ∈ m.keys := by
  simp [get?, keys, List.lookup_isSome_iff]

end Ordered

end PluginAudit
