import PluginAudit.Ordered
import PluginAudit.Proofs.KeyedLists

/-!
# What is found in a map in order of insertion

A map is known by its keys, which are distinct and stand in the order in which they were first
stored (`keys_ofPairs`), and by the value under each, the last one stored (`get?_ofPairs`).
-/

namespace PluginAudit.Ordered

variable {α : Type}

theorem nodup_keys_put {m : Ordered α} (h : m.keys.Nodup) (key : String) (a : α) :
    (m.put key a).keys.Nodup := by
  rw [keys_put]
  split
  · exact h
  next hkey => exact List.nodup_append.2 ⟨h, List.nodup_singleton key, by grind⟩

theorem get?_eq_some_iff {m : Ordered α} (h : m.keys.Nodup) {key : String} {a : α} :
    m.get? key = some a ↔ (key, a) ∈ m := by
  induction m with
  | nil => simp [get?]
  | cons p m ih =>
    obtain ⟨k, b⟩ := p
    obtain ⟨hk, hm⟩ := List.nodup_cons.1 h
    by_cases hkey : key = k
    · subst hkey
      have hnew : (key, a) ∉ m := fun hmem => hk (List.mem_map.2 ⟨_, hmem, rfl⟩)
      simp [get?, hnew, eq_comm]
    · have hget : get? ((k, b) :: m) key = get? m key := by
        simp [get?, List.lookup_cons, beq_eq_false_iff_ne.2 hkey]
      simp [hget, ih hm, hkey]

theorem put_of_not_mem {m : Ordered α} {key : String} (h : key ∉ m.keys) (a : α) :
    m.put key a = m ++ [(key, a)] := by
  induction m with
  | nil => rfl
  | cons p m ih =>
    obtain ⟨k, b⟩ := p
    obtain ⟨hk, hm⟩ := not_or.1 (mt List.mem_cons.2 h)
    rw [put, if_neg (Ne.symm hk), ih hm, List.cons_append]

/-! ## Storing many pairs -/

theorem ofPairs_concat (pairs : List (String × α)) (key : String) (a : α) :
    ofPairs (pairs ++ [(key, a)]) = (ofPairs pairs).put key a := by
  rw [ofPairs, List.foldl_append]
  rfl

/-- The value under a key is the last one stored. -/
theorem get?_ofPairs (pairs : List (String × α)) (key : String) :
    (ofPairs pairs).get? key = pairs.reverse.lookup key := by
  induction pairs using List.reverseRecOn with
  | nil => rfl
  | append_singleton pairs p ih =>
    obtain ⟨k, a⟩ := p
    rw [ofPairs_concat, get?_put, ih, List.reverse_append, List.reverse_singleton,
      List.singleton_append, List.lookup_cons]
    by_cases h : key = k
    · rw [if_pos h, beq_iff_eq.2 h]
    · rw [if_neg h, beq_eq_false_iff_ne.2 h]

/-- The keys stand in the order in which they were first stored. -/
theorem keys_ofPairs (pairs : List (String × α)) :
    (ofPairs pairs).keys = (pairs.map (·.1)).eraseDups := by
  induction pairs using List.reverseRecOn with
  | nil => rfl
  | append_singleton pairs p ih =>
    obtain ⟨k, a⟩ := p
    rw [ofPairs_concat, keys_put, ih, List.map_append, List.map_singleton, eraseDups_concat]
    simp only [List.mem_eraseDups]

theorem nodup_keys_ofPairs (pairs : List (String × α)) : (ofPairs pairs).keys.Nodup := by
  induction pairs using List.reverseRecOn with
  | nil => exact .nil
  | append_singleton pairs p ih =>
    rw [ofPairs_concat]
    exact nodup_keys_put ih _ _

/-- Pairs without repeated keys are stored as they are. -/
theorem ofPairs_of_nodup {pairs : List (String × α)} (h : (pairs.map (·.1)).Nodup) :
    ofPairs pairs = pairs := by
  induction pairs using List.reverseRecOn with
  | nil => rfl
  | append_singleton pairs p ih =>
    obtain ⟨k, a⟩ := p
    rw [List.map_append, List.map_singleton, ← List.concat_eq_append, List.nodup_concat] at h
    have hpairs : ofPairs pairs = pairs := ih h.2
    rw [ofPairs_concat, hpairs]
    exact put_of_not_mem h.1 a

end PluginAudit.Ordered
