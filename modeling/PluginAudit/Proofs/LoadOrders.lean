import Mathlib.Data.List.TakeWhile
import PluginAudit.Host.Installation
import PluginAudit.Proofs.UnitOrder

/-!
# Plugins in load order

A load order may name a plugin several times, in any case, and plugins that are not installed. What
counts is the last line that names a plugin. Sorting by it keeps the order of the names that no line
mentions (`sortByOrder_precedes`).
-/

namespace PluginAudit

namespace LoadOrder

/-- Whether a line names a plugin, in some case. -/
def Entry.Names (e : Entry) (name : String) : Prop :=
  Text.lowerString e.name = Text.lowerString name

instance (e : Entry) (name : String) : Decidable (e.Names name) :=
  inferInstanceAs (Decidable (_ = _))

def Mentions (order : List Entry) (name : String) : Prop := ∃ e ∈ order, e.Names name

/-- The last line that names a plugin is the one at a place. -/
def LastNamed (order : List Entry) (name : String) (place : Nat) : Prop :=
  ∃ earlier e later, order = earlier ++ e :: later ∧ earlier.length = place ∧ e.Names name ∧
    ¬ Mentions later name

/-- Whether one plugin comes before another: by the last lines that name them, or else, if no line
names the second one or both, by that or by the units of their names. -/
inductive Precedes (order : List Entry) (a b : String) : Prop where
  | named {i j : Nat} (ha : LastNamed order a i) (hb : LastNamed order b j) (h : i < j)
  | mentioned (ha : Mentions order a) (hb : ¬ Mentions order b)
  | unmentioned (ha : ¬ Mentions order a) (hb : ¬ Mentions order b)
    (h : Text.units a.toList < Text.units b.toList)

variable {order : List Entry} {name : String}

theorem Mentions.exists_lastNamed (h : Mentions order name) :
    ∃ place, LastNamed order name place := by
  induction order with
  | nil =>
    obtain ⟨e, he, -⟩ := h
    cases he
  | cons e order ih =>
    by_cases hlater : Mentions order name
    · obtain ⟨_, earlier, e', later, rfl, rfl, he', hnone⟩ := ih hlater
      exact ⟨_, e :: earlier, e', later, rfl, rfl, he', hnone⟩
    · obtain ⟨e', he', hnames⟩ := h
      rcases List.mem_cons.1 he' with rfl | he'
      · exact ⟨_, [], _, order, rfl, rfl, hnames, hlater⟩
      · exact absurd ⟨e', he', hnames⟩ hlater

theorem LastNamed.lt_length {place : Nat} (h : LastNamed order name place) :
    place < order.length := by
  obtain ⟨earlier, e, later, rfl, rfl, -, -⟩ := h
  simp

/-- One line names plugins only whose names differ in case at most. -/
theorem LastNamed.lowerString_eq {name' : String} {place : Nat} (h : LastNamed order name place)
    (h' : LastNamed order name' place) : Text.lowerString name = Text.lowerString name' := by
  obtain ⟨earlier, e, later, rfl, rfl, he, -⟩ := h
  obtain ⟨earlier', e', later', heq, hlength, he', -⟩ := h'
  obtain ⟨-, htail⟩ := List.append_inj heq hlength.symm
  cases htail
  exact he.symm.trans he'

end LoadOrder

namespace Host.Installation

open LoadOrder

variable {order : List Entry} {name : String}

theorem rank_of_lastNamed {place : Nat} (h : LastNamed order name place) :
    rank order name = place := by
  obtain ⟨earlier, e, later, rfl, rfl, he, hnone⟩ := h
  have hnames : Text.lowerString e.name = Text.lowerString name := he
  have hlater : ∀ e ∈ later.reverse,
      decide (Text.lowerString e.name ≠ Text.lowerString name) = true :=
    fun e he => decide_eq_true fun hn => hnone ⟨e, List.mem_reverse.1 he, hn⟩
  have htake : (earlier ++ e :: later).reverse.takeWhile
      (fun e => decide (Text.lowerString e.name ≠ Text.lowerString name)) = later.reverse := by
    rw [List.reverse_append, List.reverse_cons, List.append_assoc,
      List.takeWhile_append_of_pos hlater, List.singleton_append,
      List.takeWhile_cons_of_neg (by simpa using hnames), List.append_nil]
  rw [rank, htake, if_neg, List.length_append, List.length_cons, List.length_reverse]
  · omega
  · rw [List.length_append, List.length_cons, List.length_reverse]
    omega

theorem rank_of_not_mentions (h : ¬ Mentions order name) : rank order name = order.length := by
  have hall : ∀ e ∈ order.reverse,
      decide (Text.lowerString e.name ≠ Text.lowerString name) = true :=
    fun e he => decide_eq_true fun hn => h ⟨e, List.mem_reverse.1 he, hn⟩
  rw [rank, List.takeWhile_eq_self_iff.2 hall, if_pos List.length_reverse]

theorem rank_lt_length_iff : rank order name < order.length ↔ Mentions order name := by
  constructor
  · intro h
    by_contra hn
    rw [rank_of_not_mentions hn] at h
    exact absurd h (lt_irrefl _)
  · intro h
    obtain ⟨place, hplace⟩ := h.exists_lastNamed
    rw [rank_of_lastNamed hplace]
    exact hplace.lt_length

/-- A plugin of lower rank comes first. -/
theorem precedes_of_rank_lt {a b : String} (h : rank order a < rank order b) :
    Precedes order a b := by
  have hb : rank order b ≤ order.length := by
    by_cases hb : Mentions order b
    · exact Nat.le_of_lt (rank_lt_length_iff.2 hb)
    · exact Nat.le_of_eq (rank_of_not_mentions hb)
  have ha : Mentions order a := rank_lt_length_iff.1 (by omega)
  by_cases hb : Mentions order b
  · obtain ⟨i, hi⟩ := ha.exists_lastNamed
    obtain ⟨j, hj⟩ := hb.exists_lastNamed
    rw [rank_of_lastNamed hi, rank_of_lastNamed hj] at h
    exact .named hi hj h
  · exact .mentioned ha hb

/-- Plugins of the same rank that some line names are the same up to case. -/
theorem lowerString_eq_of_rank_eq {a b : String} (h : rank order a = rank order b)
    (ha : Mentions order a) : Text.lowerString a = Text.lowerString b := by
  have hb : Mentions order b := rank_lt_length_iff.1 (h ▸ rank_lt_length_iff.2 ha)
  obtain ⟨i, hi⟩ := ha.exists_lastNamed
  obtain ⟨j, hj⟩ := hb.exists_lastNamed
  rw [rank_of_lastNamed hi, rank_of_lastNamed hj] at h
  subst h
  exact hi.lowerString_eq hj

theorem sortByOrder_perm (order : List Entry) (names : List String) :
    (sortByOrder order names).Perm names :=
  List.mergeSort_perm _ _

/-- How names are compared by a load order. -/
def rankLe (order : List Entry) (a b : String) : Bool := rank order a ≤ rank order b

theorem rankLe_trans (a b c : String) (hab : rankLe order a b) (hbc : rankLe order b c) :
    rankLe order a c :=
  decide_eq_true (Nat.le_trans (of_decide_eq_true hab) (of_decide_eq_true hbc))

theorem rankLe_total (a b : String) : rankLe order a b || rankLe order b a := by
  simpa [rankLe] using Nat.le_total _ _

theorem pairwise_rank_sortByOrder (order : List Entry) (names : List String) :
    (sortByOrder order names).Pairwise fun a b => rank order a ≤ rank order b := by
  have hsorted : (sortByOrder order names).Pairwise fun a b => rankLe order a b :=
    List.pairwise_mergeSort rankLe_trans rankLe_total names
  exact hsorted.imp of_decide_eq_true

/-- Names that are not mentioned are all of the same rank, so they stay in order. -/
theorem filter_sortByOrder (order : List Entry) (names : List String) :
    ((sortByOrder order names).filter fun name => rank order name = order.length) =
      names.filter fun name => rank order name = order.length := by
  have hsame : (names.filter fun name => rank order name = order.length).Pairwise
      fun a b => rankLe order a b = true := by
    refine List.pairwise_of_forall_mem_list fun a ha b hb => decide_eq_true ?_
    rw [of_decide_eq_true (List.mem_filter.1 ha).2, of_decide_eq_true (List.mem_filter.1 hb).2]
  have hsub := List.sublist_mergeSort rankLe_trans rankLe_total hsame List.filter_sublist
  have hfilter := List.Sublist.filter (fun name => decide (rank order name = order.length)) hsub
  rw [List.filter_filter] at hfilter
  simp only [Bool.and_self] at hfilter
  exact (hfilter.eq_of_length ((sortByOrder_perm order names).filter _).length_eq.symm).symm

/-- Sorted by a load order, the plugins that it names come in the order of the last lines that name
them, and the others after them as they were. -/
theorem sortByOrder_precedes (order : List Entry) {names : List String}
    (hunits : names.Pairwise fun a b => Text.units a.toList < Text.units b.toList)
    (hcase : (names.map Text.lowerString).Nodup) :
    (sortByOrder order names).Pairwise (Precedes order) := by
  have hrank := pairwise_rank_sortByOrder order names
  have hdiffer : (sortByOrder order names).Pairwise
      fun a b => Text.lowerString a ≠ Text.lowerString b :=
    List.pairwise_map.1 (((sortByOrder_perm order names).map _).nodup_iff.2 hcase)
  have hlast : (sortByOrder order names).Pairwise fun a b =>
      rank order a = order.length → rank order b = order.length →
        Text.units a.toList < Text.units b.toList := by
    have hfilter := hunits.filter fun name => decide (rank order name = order.length)
    rw [← filter_sortByOrder, List.pairwise_filter] at hfilter
    exact hfilter.imp fun h ha hb => h (decide_eq_true ha) (decide_eq_true hb)
  refine ((hrank.and hdiffer).and hlast).imp fun {a b} ⟨⟨hle, hne⟩, hlt⟩ => ?_
  rcases Nat.lt_or_eq_of_le hle with h | h
  · exact precedes_of_rank_lt h
  have ha : ¬ Mentions order a := fun ha => hne (lowerString_eq_of_rank_eq h ha)
  have hb : ¬ Mentions order b := fun hb => hne (lowerString_eq_of_rank_eq h.symm hb).symm
  exact .unmentioned ha hb (hlt (rank_of_not_mentions ha) (rank_of_not_mentions hb))

end Host.Installation

end PluginAudit
