import Mathlib.Data.List.Basic
import PluginAudit.LoadOrder

/-!
# How load orders are written

A load order is written line by line, with comments and blanks between the entries and blanks around
them. `Written` lists the ways to do so. Every text is a way of writing exactly those entries that
are read from it (`read_eq_iff_written`).
-/

namespace PluginAudit.LoadOrder

open Text

/-- An entry can be written if its name is not taken for something else: it lies on one line and
does not end with a blank, and without a mark before it it also begins like a name. -/
structure Entry.IsWritable (e : Entry) : Prop where
  one_line : '\n' ∉ e.name.toList
  last : ∀ c, e.name.toList.getLast? = some c → isBlank c = false
  first : e.active = false →
    ∃ c, e.name.toList.head? = some c ∧ isBlank c = false ∧ c ≠ '*' ∧ c ≠ '#'

/-- An entry on its line. -/
def Entry.line (e : Entry) : List Char :=
  if e.active then '*' :: e.name.toList else e.name.toList

/-- A line ends with a line feed, with a carriage return before it or not; the last line need not
end. -/
inductive EndsLine : List Char → List Char → Prop where
  | feed (rest : List Char) : EndsLine ['\n'] rest
  | returnFeed (rest : List Char) : EndsLine ['\r', '\n'] rest
  | last : EndsLine [] []

/-- The ways to write a list of entries. -/
inductive Written : List Entry → List Char → Prop where
  | nil : Written [] []
  /-- Blanks before a line, or lines of blanks. -/
  | blanks {entries : List Entry} {rest : List Char} (spaces : List Char)
      (hspaces : ∀ c ∈ spaces, isBlank c = true) (h : Written entries rest) :
      Written entries (spaces ++ rest)
  | comment {entries : List Entry} {rest : List Char} (text ending : List Char)
      (htext : '\n' ∉ text) (hending : EndsLine ending rest) (h : Written entries rest) :
      Written entries ('#' :: text ++ (ending ++ rest))
  | entry {entries : List Entry} {rest : List Char} (e : Entry) (spaces ending : List Char)
      (he : e.IsWritable) (hspaces : ∀ c ∈ spaces, isBlank c = true)
      (hending : EndsLine ending rest) (h : Written entries rest) :
      Written (e :: entries) (e.line ++ (spaces ++ (ending ++ rest)))

/-! ## Reading line by line -/

/-- The entries of a text. -/
def entriesOf (cs : List Char) : List Entry :=
  (fields (· == '\n') cs).filterMap fun line => entryOf? (trim line)

theorem beq_feed_of_mem {line : List Char} (h : '\n' ∉ line) : ∀ c ∈ line, (c == '\n') = false :=
  fun _ hc => beq_eq_false_iff_ne.2 fun he => h (he ▸ hc)

/-- A line feed ends a line. -/
theorem entriesOf_feed {line : List Char} (h : '\n' ∉ line) (rest : List Char) :
    entriesOf (line ++ '\n' :: rest) = (entryOf? (trim line)).toList ++ entriesOf rest := by
  have hfeed : fields (· == '\n') ('\n' :: rest) = [] :: fields (· == '\n') rest :=
    fields_sep (by decide) rest
  rw [entriesOf, fields_append (beq_feed_of_mem h) hfeed, List.append_nil, List.filterMap_cons]
  cases entryOf? (trim line) <;> rfl

theorem entriesOf_last {line : List Char} (h : '\n' ∉ line) :
    entriesOf line = (entryOf? (trim line)).toList := by
  have hfields : fields (· == '\n') (line ++ []) = [line ++ []] :=
    fields_append (beq_feed_of_mem h) rfl
  rw [List.append_nil] at hfields
  rw [entriesOf, hfields, List.filterMap_cons]
  cases entryOf? (trim line) <;> rfl

/-- Blanks before a line and lines of blanks are passed over. -/
theorem entriesOf_blanks {spaces : List Char} (h : ∀ c ∈ spaces, isBlank c = true)
    (rest : List Char) : entriesOf (spaces ++ rest) = entriesOf rest := by
  induction spaces with
  | nil => rfl
  | cons c spaces ih =>
    rw [← ih fun d hd => h d (List.mem_cons_of_mem _ hd)]
    obtain ⟨line, lines, hfields⟩ := List.exists_cons_of_ne_nil
      (fields_ne_nil (· == '\n') (spaces ++ rest))
    rw [entriesOf, entriesOf, List.cons_append, fields, hfields]
    split
    · rfl
    · rw [List.filterMap_cons, List.filterMap_cons, trim_blank (h c List.mem_cons_self)]

theorem EndsLine.isBlank {ending rest : List Char} (h : EndsLine ending rest) :
    ∀ c ∈ ending, isBlank c = true := by
  cases h with
  | feed => exact List.forall_mem_singleton.2 (by decide)
  | returnFeed => exact List.forall_mem_cons.2 ⟨by decide, List.forall_mem_singleton.2 (by decide)⟩
  | last => exact List.forall_mem_nil _

/-- The blanks after a line do not count. -/
theorem entriesOf_line {line spaces ending rest : List Char} (h : '\n' ∉ line)
    (hspaces : ∀ c ∈ spaces, isBlank c = true) (hending : EndsLine ending rest) :
    entriesOf (line ++ (spaces ++ (ending ++ rest))) =
      (entryOf? (trim line)).toList ++ entriesOf rest := by
  have hblank : ∀ c ∈ spaces ++ ending, isBlank c = true := fun c hc =>
    (List.mem_append.1 hc).elim (hspaces c) (hending.isBlank c)
  have htrim : ∀ r, (∀ c ∈ r, isBlank c = true) → trim (line ++ r) = trim line := fun r hr =>
    trim_between (l := []) (fun _ hc => nomatch hc) hr line
  by_cases hfeed : '\n' ∈ spaces ++ ending
  · obtain ⟨r, r', hr, hnot⟩ := List.eq_append_cons_of_mem hfeed
    rw [hr] at hblank
    have hr₁ : ∀ c ∈ r, isBlank c = true := fun c hc => hblank c (List.mem_append_left _ hc)
    have hr₂ : ∀ c ∈ r', isBlank c = true := fun c hc =>
      hblank c (List.mem_append_right _ (List.mem_cons_of_mem _ hc))
    have hline : '\n' ∉ line ++ r := fun hc => (List.mem_append.1 hc).elim h hnot
    rw [← List.append_assoc spaces, hr, List.append_assoc, ← List.append_assoc line,
      List.cons_append, entriesOf_feed hline, htrim r hr₁, entriesOf_blanks hr₂]
  · have hspaces' : '\n' ∉ line ++ spaces := fun hc =>
      (List.mem_append.1 hc).elim h fun hs => hfeed (List.mem_append_left _ hs)
    cases hending with
    | feed => simp at hfeed
    | returnFeed => simp at hfeed
    | last =>
      rw [List.append_nil, List.append_nil, entriesOf_last hspaces', htrim spaces hspaces]
      exact (List.append_nil _).symm

/-! ## What is written is read -/

theorem head?_line {e : Entry} (h : e.IsWritable) :
    ∀ c, e.line.head? = some c → isBlank c = false ∧ c ≠ '#' := by
  intro c hc
  rw [Entry.line] at hc
  split at hc
  · cases hc
    decide
  · next hactive =>
    obtain ⟨d, hd, hblank, -, hcomment⟩ := h.first (by simpa using hactive)
    cases hc.symm.trans hd
    exact ⟨hblank, hcomment⟩

theorem getLast?_line {e : Entry} (h : e.IsWritable) :
    ∀ c, e.line.getLast? = some c → isBlank c = false := by
  intro c hc
  rw [Entry.line] at hc
  split at hc
  · rw [List.getLast?_cons] at hc
    cases hlast : e.name.toList.getLast? with
    | none =>
      rw [hlast] at hc
      cases hc
      decide
    | some d =>
      rw [hlast] at hc
      cases hc
      exact h.last d hlast
  · exact h.last c hc

theorem trim_line {e : Entry} (h : e.IsWritable) : trim e.line = e.line :=
  trim_eq_self (fun c hc => (head?_line h c hc).1) (getLast?_line h)

theorem not_mem_line {e : Entry} (h : e.IsWritable) : '\n' ∉ e.line := by
  rw [Entry.line]
  split
  · exact fun hc => (List.mem_cons.1 hc).elim (by decide) h.one_line
  · exact h.one_line

/-- A text that begins like a name is one. -/
theorem entryOf?_of_ne {c : Char} (hmark : c ≠ '*') (hcomment : c ≠ '#') (cs : List Char) :
    entryOf? (c :: cs) = some ⟨String.ofList (c :: cs), false⟩ := by
  unfold entryOf?
  split <;> simp_all

theorem entryOf?_line {e : Entry} (h : e.IsWritable) : entryOf? e.line = some e := by
  obtain ⟨name, active⟩ := e
  cases active with
  | true => simp [Entry.line, entryOf?]
  | false =>
    obtain ⟨c, hc, -, hmark, hcomment⟩ := h.first rfl
    obtain ⟨cs, hname⟩ := List.head?_eq_some_iff.1 hc
    have hline : Entry.line ⟨name, false⟩ = c :: cs := hname
    rw [hline, entryOf?_of_ne hmark hcomment, ← hname, String.ofList_toList]

theorem Written.entriesOf_eq {entries : List Entry} {cs : List Char} (h : Written entries cs) :
    entriesOf cs = entries := by
  induction h with
  | nil => rfl
  | blanks spaces hspaces _ ih => rw [entriesOf_blanks hspaces, ih]
  | @comment entries rest text ending htext hending _ ih =>
    have hline : '\n' ∉ '#' :: text := fun hc => (List.mem_cons.1 hc).elim (by decide) htext
    have hnone : entryOf? (trim ('#' :: text)) = none := by
      rw [trim_cons (by decide)]
      rfl
    have hread : entriesOf ('#' :: text ++ ([] ++ (ending ++ rest))) = _ :=
      entriesOf_line hline (List.forall_mem_nil _) hending
    rw [hnone, ih] at hread
    exact hread
  | entry e spaces ending he hspaces hending _ ih =>
    rw [entriesOf_line (not_mem_line he) hspaces hending, trim_line he, entryOf?_line he, ih]
    rfl

/-! ## What is read is written -/

/-- A line without the blanks before it is a way of writing its entry, if it has one. -/
theorem written_body {body spaces ending rest : List Char} {entries : List Entry}
    (hline : '\n' ∉ body ++ spaces) (hfirst : ∀ c, body.head? = some c → isBlank c = false)
    (hlast : ∀ c, body.getLast? = some c → isBlank c = false)
    (hspaces : ∀ c ∈ spaces, isBlank c = true) (hending : EndsLine ending rest)
    (h : Written entries rest) :
    Written ((entryOf? body).toList ++ entries) (body ++ (spaces ++ (ending ++ rest))) := by
  have hbody : '\n' ∉ body := fun hc => hline (List.mem_append_left _ hc)
  unfold entryOf?
  split
  · exact .blanks spaces hspaces (.blanks ending hending.isBlank h)
  · next text =>
    have htext : '\n' ∉ text ++ spaces := fun hc => hline (List.mem_cons_of_mem _ hc)
    have hwritten := Written.comment (text ++ spaces) ending htext hending h
    rwa [← List.cons_append, List.append_assoc] at hwritten
  · next name =>
    have hwritable : Entry.IsWritable ⟨String.ofList name, true⟩ := by
      refine ⟨?_, fun c hc => hlast c ?_, fun h => nomatch h⟩
      · rw [String.toList_ofList]
        exact fun hc => hbody (List.mem_cons_of_mem _ hc)
      · rw [String.toList_ofList] at hc
        rw [List.getLast?_cons, hc]
        rfl
    have hwritten := Written.entry _ spaces ending hwritable hspaces hending h
    rwa [Entry.line, if_pos rfl, String.toList_ofList] at hwritten
  · next hne hcomment hmark =>
    obtain ⟨c, cs, rfl⟩ := List.exists_cons_of_ne_nil hne
    have hwritable : Entry.IsWritable ⟨String.ofList (c :: cs), false⟩ := by
      refine ⟨?_, ?_, fun _ => ⟨c, ?_, hfirst c rfl, ?_, ?_⟩⟩
      · rwa [String.toList_ofList]
      · rwa [String.toList_ofList]
      · rw [String.toList_ofList]
        rfl
      · exact fun he => hmark cs (he ▸ rfl)
      · exact fun he => hcomment cs (he ▸ rfl)
    have hwritten := Written.entry _ spaces ending hwritable hspaces hending h
    rwa [Entry.line, if_neg Bool.false_ne_true, String.toList_ofList] at hwritten

theorem written_line {line ending rest : List Char} {entries : List Entry} (hline : '\n' ∉ line)
    (hending : EndsLine ending rest) (h : Written entries rest) :
    Written ((entryOf? (trim line)).toList ++ entries) (line ++ (ending ++ rest)) := by
  obtain ⟨l, r, hl, hr, hsplit⟩ := exists_eq_append_trim line
  have hbody : '\n' ∉ trim line ++ r := fun hc => hline <| by
    rw [hsplit, List.append_assoc]
    exact List.mem_append_right _ hc
  have htext : line ++ (ending ++ rest) = l ++ (trim line ++ (r ++ (ending ++ rest))) := by
    rw [← List.append_assoc (trim line), ← List.append_assoc l, ← List.append_assoc l, ← hsplit]
  rw [htext]
  exact .blanks l hl (written_body hbody (fun _ => isBlank_of_head?_trim)
    (fun _ => isBlank_of_getLast?_trim) hr hending h)

theorem written_entriesOf (cs : List Char) : Written (entriesOf cs) cs := by
  by_cases h : '\n' ∈ cs
  · obtain ⟨line, rest, rfl, hline⟩ := List.eq_append_cons_of_mem h
    rw [entriesOf_feed hline]
    exact written_line hline (.feed rest) (written_entriesOf rest)
  · rw [entriesOf_last h, ← List.append_nil (entryOf? _).toList]
    simpa using written_line h .last .nil
termination_by cs.length

theorem Written.isWritable {entries : List Entry} {cs : List Char} (h : Written entries cs) :
    ∀ e ∈ entries, e.IsWritable := by
  induction h with
  | nil => exact fun _ he => nomatch he
  | blanks _ _ _ ih => exact ih
  | comment _ _ _ _ _ ih => exact ih
  | entry e _ _ he _ _ _ ih => exact List.forall_mem_cons.2 ⟨he, ih⟩

theorem exists_written {entries : List Entry} (h : ∀ e ∈ entries, e.IsWritable) :
    ∃ cs, Written entries cs := by
  induction entries with
  | nil => exact ⟨[], .nil⟩
  | cons e entries ih =>
    obtain ⟨he, h⟩ := List.forall_mem_cons.1 h
    obtain ⟨cs, hcs⟩ := ih h
    exact ⟨_, .entry e [] _ he (List.forall_mem_nil _) (.feed cs) hcs⟩

/-- The lists of entries that are read from some text are those that can be written. -/
theorem exists_read_iff {entries : List Entry} :
    (∃ text, read text = entries) ↔ ∀ e ∈ entries, e.IsWritable := by
  refine ⟨fun ⟨text, h⟩ => h ▸ (written_entriesOf text.toList).isWritable, fun h => ?_⟩
  obtain ⟨cs, hcs⟩ := exists_written h
  refine ⟨String.ofList cs, ?_⟩
  rw [← hcs.entriesOf_eq, read, String.toList_ofList]
  rfl

/-- The entries that are read from a text are those that it is a way of writing. -/
theorem read_eq_iff_written {entries : List Entry} {text : String} :
    read text = entries ↔ Written entries text.toList :=
  ⟨fun h => h ▸ written_entriesOf text.toList, Written.entriesOf_eq⟩

end PluginAudit.LoadOrder
