import PluginAudit.Proofs.WarningPass

/-!
# Items that are refused

A requirement, an incompatibility or a message whose path, pattern or condition is refused is passed
over, and a warning in the log says so. Nothing else comes of it: the pass goes on as if the item
were not in its record (`warnings_without`), although questions were asked and facts kept on the
way.

What a check finds and what it says of warnings and errors does not depend on the facts known before
it (`Composed.said_steady`), so that both are described check by check, each as if it were alone
(`found`, `told`). A refused item is then a check among others that finds nothing
(`Clause.check_refused`).
-/

namespace PluginAudit

/-! ## Warnings and errors -/

namespace Log

/-- Whether an event is a warning or an error. -/
def Event.isSerious (e : Event) : Bool := e.level = .warn || e.level = .error

/-- The warnings and errors that a transcript tells of. -/
def serious (lines : List (Dialogue.Line Host.Query Event)) : List Event :=
  (lines.filterMap (·.note?)).filter (·.isSerious)

/-- Anything may be asked, but no warning or error reported. -/
def calm : Rules Host.Query Host.Answer Event where
  admits _ _ := True
  mayAsk _ := True
  mayNote e := e.isSerious = false

variable {lines lines' : List (Dialogue.Line Host.Query Event)}

theorem serious_append : serious (lines ++ lines') = serious lines ++ serious lines' := by
  rw [serious, List.filterMap_append, List.filter_append]
  rfl

theorem serious_eq_nil (h : ∀ line ∈ lines, Dialogue.Allows calm line) : serious lines = [] := by
  refine List.filter_eq_nil_iff.2 fun e he => ?_
  obtain ⟨line, hl, hn⟩ := List.mem_filterMap.1 he
  cases line with
  | asked q => cases hn
  | noted n =>
    cases hn
    have hq : e.isSerious = false := h _ hl
    rw [hq]
    exact Bool.false_ne_true

end Log

namespace Inspection

variable {α β : Type} {host : Host.Fixed} {warns : Bool} {context : Option Package}
  {s₀ : Option Facts}

/-- The warnings and errors that an inspection reports. -/
def said (host : Host.Fixed) (s : Option Facts) (i : Inspection α) : List Log.Event :=
  Log.serious (transcript host s i)

theorem said_bind (s : Option Facts) (i : Inspection α) (f : α → Inspection β) :
    said host s (i >>= f) =
      said host s i ++ match outcome host s i with
        | .ok a => said host (after host s i) (f a)
        | .error _ => [] := by
  rw [said, transcript_bind, Log.serious_append]
  cases outcome host s i <;> rfl

theorem said_tryCatch (s : Option Facts) (i : Inspection α) (h : Failure → Inspection α) :
    said host s (tryCatch i h) =
      said host s i ++ match outcome host s i with
        | .ok _ => []
        | .error e => said host (after host s i) (h e) := by
  rw [said, transcript_tryCatch, Log.serious_append]
  cases outcome host s i <;> rfl

theorem Obeys.said_eq_nil {i : Inspection α} {post : α → Prop} (h : Obeys Log.calm i post)
    (s : Option Facts) : said host s i = [] := by
  have hlines : ∀ line ∈ transcript host s i, Dialogue.Allows Log.calm line :=
    ((h.dialogue s).run fun _ => trivial).1
  exact Log.serious_eq_nil hlines

/-- Reading the facts of a plugin is no reason for a warning. -/
theorem said_facts (p : Package) (s : Option Facts) : said host s p.facts = [] := by
  have hf : Obeys Log.calm p.facts fun _ => True := .facts trivial fun _ => trivial
  exact hf.said_eq_nil s

namespace Composed

/-- Unless it warns, an inspection has nothing serious to say. -/
theorem calm {i : Inspection α} (h : Composed false context i) :
    Obeys Log.calm i (fun _ => True) := by
  induction h with
  | pure a => exact .pure trivial
  | ask q => exact .asks trivial
  | answer q => exact .answers trivial
  | report e h =>
    rcases h with h | ⟨hwarns, -⟩
    · have he : e.isSerious = false := by simp [Log.Event.isSerious, h]
      exact .report he
    · cases hwarns
  | throw f => exact .throw f
  | facts p h => exact .facts trivial fun _ => trivial
  | bind _ _ ih ih' => exact .bind ih fun a _ => ih' a
  | tryCatch _ _ ih ih' => exact .tryCatch ih ih'

theorem weaken {i : Inspection α} (h : Composed false context i) : Composed warns context i := by
  induction h with
  | pure a => exact .pure a
  | ask q => exact .ask q
  | answer q => exact .answer q
  | report e h =>
    rcases h with h | ⟨hwarns, -⟩
    · exact .report e (.inl h)
    · cases hwarns
  | throw f => exact .throw f
  | facts p h => exact .facts p h
  | bind _ _ ih ih' => exact .bind ih ih'
  | tryCatch _ _ ih ih' => exact .tryCatch ih ih'

/-- The facts that become known on the way do not change what is said. -/
theorem said_steady {i : Inspection α} (h : Composed warns context i) :
    ∀ s, Since host context s₀ s → said host s i = said host s₀ i := by
  induction h with
  | pure a => exact fun _ _ => rfl
  | ask q => exact fun _ _ => rfl
  | answer q => exact fun _ _ => rfl
  | report e h => exact fun _ _ => rfl
  | throw f => exact fun _ _ => rfl
  | facts p h => exact fun s _ => (said_facts p s).trans (said_facts p s₀).symm
  | @bind _ _ i f hi _ ih ih' =>
    intro s hs
    obtain ⟨ho, ha⟩ := hi.steady s hs
    have ha₀ : Since host context s₀ (after host s₀ i) := (hi.steady s₀ .refl).2
    rw [said_bind, said_bind, ih s hs, ho]
    cases outcome host s₀ i with
    | error e => rfl
    | ok a =>
      have hrest : said host (after host s i) (f a) = said host (after host s₀ i) (f a) :=
        (ih' a _ ha).trans (ih' a _ ha₀).symm
      exact congrArg (said host s₀ i ++ ·) hrest
  | @tryCatch _ i h hi _ ih ih' =>
    intro s hs
    obtain ⟨ho, ha⟩ := hi.steady s hs
    have ha₀ : Since host context s₀ (after host s₀ i) := (hi.steady s₀ .refl).2
    rw [said_tryCatch, said_tryCatch, ih s hs, ho]
    cases outcome host s₀ i with
    | ok a => rfl
    | error e =>
      have hrest : said host (after host s i) (h e) = said host (after host s₀ i) (h e) :=
        (ih' e _ ha).trans (ih' e _ ha₀).symm
      exact congrArg (said host s₀ i ++ ·) hrest

/-- What two parts say is said as if the second were alone. -/
theorem said_bind {i : Inspection α} {f : α → Inspection β} (hi : Composed warns context i)
    (hf : ∀ a, Composed warns context (f a)) :
    said host s₀ (i >>= f) =
      said host s₀ i ++ match outcome host s₀ i with
        | .ok a => said host s₀ (f a)
        | .error _ => [] := by
  rw [Inspection.said_bind]
  cases outcome host s₀ i with
  | error e => rfl
  | ok a =>
    have ha : Since host context s₀ (after host s₀ i) := (hi.steady s₀ .refl).2
    exact congrArg (said host s₀ i ++ ·) ((hf a).said_steady _ ha)

end Composed

end Inspection

namespace Audit

open Metadata Inspection

variable {host : Host.Fixed} {dirs : Host.Directories} {store : Store} {includeInfo : Bool}
  {p : Package}

/-! ## Checks one after the other -/

section

variable (host : Host.Fixed)

/-- What checks find until one of them fails, each as if it were alone, and the failure. -/
def found : List Check → List Warning × Option Failure
  | [] => ([], none)
  | c :: cs =>
    match outcome host none c with
    | .error f => ([], some f)
    | .ok w => (w.toList ++ (found cs).1, (found cs).2)

/-- The warnings and errors that checks report until one of them fails, each as if it were alone. -/
def told : List Check → List Log.Event
  | [] => []
  | c :: cs =>
    said host none c ++ match outcome host none c with
      | .error _ => []
      | .ok _ => told cs

/-- Whether no check fails. -/
def completes (cs : List Check) : Bool := cs.all fun c => (outcome host none c).isOk

end

theorem completes_cons (c : Check) (cs : List Check) :
    completes host (c :: cs) = ((outcome host none c).isOk && completes host cs) := rfl

theorem found_append (cs ds : List Check) :
    found host (cs ++ ds) =
      if completes host cs then ((found host cs).1 ++ (found host ds).1, (found host ds).2)
      else found host cs := by
  induction cs with
  | nil => rfl
  | cons c cs ih =>
    rw [List.cons_append, found, found, completes_cons]
    cases outcome host none c with
    | error f => rfl
    | ok w =>
      rw [ih]
      cases completes host cs with
      | true => exact Prod.ext (List.append_assoc ..).symm rfl
      | false => rfl

theorem told_append (cs ds : List Check) :
    told host (cs ++ ds) = told host cs ++ if completes host cs then told host ds else [] := by
  induction cs with
  | nil => rfl
  | cons c cs ih =>
    rw [List.cons_append, told, told, completes_cons]
    cases outcome host none c with
    | error f => simp [Except.isOk, Except.toBool]
    | ok w => simp [ih, Except.isOk, Except.toBool]

theorem composed_of_checks {cs : List Check} {its : List Item}
    (h : List.Forall₂ (Checks host p) cs its) : ∀ c ∈ cs, Composed true (some p) c := by
  induction h with
  | nil => exact fun _ hc => absurd hc List.not_mem_nil
  | cons hc _ ih => exact List.forall_mem_cons.2 ⟨hc.composed, ih⟩

/-- The facts that become known from check to check make no difference to what is found and said. -/
theorem run_findings_eq {cs : List Check} (h : ∀ c ∈ cs, Composed true (some p) c)
    {s : Option Facts} (hs : Since host (some p) none s) :
    (Dialogue.run host (findings cs s)).2.1 = found host cs ∧
      Log.serious (Dialogue.run host (findings cs s)).1 = told host cs := by
  induction cs generalizing s with
  | nil => exact ⟨rfl, rfl⟩
  | cons c cs ih =>
    obtain ⟨hc, hcs⟩ := List.forall_mem_cons.1 h
    obtain ⟨ho, ha⟩ := hc.steady s hs
    have hsaid : Log.serious (Dialogue.run host (c s)).1 = said host none c := hc.said_steady s hs
    have hrun : (Dialogue.run host (c s)).2 = (outcome host none c, after host s c) :=
      Prod.ext ho rfl
    obtain ⟨hfound, htold⟩ := ih hcs ha
    rw [findings_cons, Dialogue.run_bind, found, told, Log.serious_append, hsaid, hrun]
    cases outcome host none c with
    | error f => exact ⟨rfl, rfl⟩
    | ok w =>
      simp only [Dialogue.run_bind, Dialogue.run, List.append_nil, hfound, htold]
      exact ⟨trivial, trivial⟩

variable (host dirs store includeInfo) in
/-- What a plugin whose checks found this is warned about, and what is said of it in the end. -/
theorem run_pluginWarnings_eq (path : String) :
    (Dialogue.run host (pluginWarnings dirs store includeInfo path)).2 =
        (found host (checks dirs store includeInfo ⟨path⟩)).1 ∧
      Log.serious (Dialogue.run host (pluginWarnings dirs store includeInfo path)).1 =
        told host (checks dirs store includeInfo ⟨path⟩) ++
          ((found host (checks dirs store includeInfo ⟨path⟩)).2.map
            (.failedPlugin (Package.name ⟨path⟩))).toList := by
  have hc : ∀ c ∈ checks dirs store includeInfo ⟨path⟩, Composed true (some ⟨path⟩) c :=
    composed_of_checks (checks_checks : List.Forall₂ (Checks host ⟨path⟩) _ _)
  obtain ⟨hfound, htold⟩ := run_findings_eq hc (.refl : Since host _ none none)
  rw [pluginWarnings_eq, Dialogue.run_bind, Log.serious_append, htold, ← hfound]
  rcases Dialogue.run host (findings (checks dirs store includeInfo ⟨path⟩) none) with
    ⟨lines, ⟨ws, _ | f⟩, s'⟩
  · exact ⟨rfl, rfl⟩
  · exact ⟨rfl, rfl⟩

/-- A pass is about each plugin alone. -/
theorem run_eachPlugin_eq (host : Host.Fixed) (dirs : Host.Directories) (store : Store)
    (includeInfo : Bool) (paths : List String) :
    (Dialogue.run host (eachPlugin dirs store includeInfo paths)).2 =
        (paths.flatMap fun path =>
          (Dialogue.run host (pluginWarnings dirs store includeInfo path)).2) ∧
      Log.serious (Dialogue.run host (eachPlugin dirs store includeInfo paths)).1 =
        paths.flatMap fun path =>
          Log.serious (Dialogue.run host (pluginWarnings dirs store includeInfo path)).1 := by
  induction paths with
  | nil => exact ⟨rfl, rfl⟩
  | cons path paths ih =>
    obtain ⟨hws, hnotes⟩ := ih
    simp only [eachPlugin_cons, Dialogue.run_bind, Dialogue.run, Log.serious_append,
      List.flatMap_cons, hws, hnotes, List.append_nil]
    exact ⟨trivial, trivial⟩

/-- A check that finds nothing adds what it says, and otherwise might as well not be there. -/
theorem found_of_nothing {c : Check} (hc : outcome host none c = .ok none) (cs ds : List Check) :
    found host (cs ++ c :: ds) = found host (cs ++ ds) := by
  have hds : found host (c :: ds) = found host ds := by
    rw [found, hc]
    rfl
  rw [found_append, found_append, hds]

theorem told_of_nothing {c : Check} (hc : outcome host none c = .ok none) (cs ds : List Check) :
    told host (cs ++ c :: ds) =
      told host cs ++ (if completes host cs then said host none c else []) ++
        if completes host cs then told host ds else [] := by
  have hds : told host (c :: ds) = said host none c ++ told host ds := by rw [told, hc]
  rw [told_append, hds]
  cases completes host cs with
  | true => exact (List.append_assoc ..).symm
  | false => simp

/-! ## Requirements, incompatibilities and messages -/

/-- An item of a record that may be refused. -/
inductive Clause where
  | requirement (ref : FileRef)
  | incompatibility (ref : FileRef)
  | message (m : Message)
  deriving Repr, DecidableEq, Inhabited

namespace Clause

def check (dirs : Host.Directories) (p : Package) : Clause → Check
  | requirement ref => requirementCheck dirs p ref
  | incompatibility ref => incompatibilityCheck dirs p ref
  | message m => messageCheck dirs p m

/-- Only messages may be unwanted. -/
def isWanted (includeInfo : Bool) : Clause → Bool
  | message m => Audit.isWanted includeInfo m
  | _ => true

section

variable (host : Host.Fixed) (dirs : Host.Directories) (p : Package)

/-- The condition that is refused, and why. -/
def conditionRefusal? : Option String → Option (String × Condition.Fault)
  | none => none
  | some c =>
    match outcome host none (Condition.evaluate dirs (some p) c) with
    | .error (.condition f) => some (c, f)
    | _ => none

/-- The path, pattern or condition that is refused, and why. -/
def fileRefusal? (ref : FileRef) (whenPresent : Bool) : Option (String × Condition.Fault) :=
  match outcome host none (Condition.fileExists dirs ref.name) with
  | .error (.condition f) => some (ref.name, f)
  | .error _ => none
  | .ok present =>
    if present = whenPresent then conditionRefusal? host dirs p ref.condition else none

/-- What of an item is refused when it is checked, and why. -/
def refusal? : Clause → Option (String × Condition.Fault)
  | requirement ref => fileRefusal? host dirs p ref false
  | incompatibility ref => fileRefusal? host dirs p ref true
  | message m => conditionRefusal? host dirs p m.condition

end

theorem said_warnIf (w : Warning) {holds : Inspection Bool} (h : Composed true (some p) holds) :
    said host none (warnIf w holds) = said host none holds := by
  unfold warnIf
  rw [h.said_bind fun b => .pure _]
  cases outcome host none holds with
  | ok b => exact List.append_nil _
  | error f => exact List.append_nil _

/-- What is refused is said to be, and nothing more. -/
theorem said_unlessRefused (item : String) {holds : Inspection Bool}
    (h : Composed false (some p) holds) :
    said host none (unlessRefused p item holds) =
      match outcome host none holds with
      | .error (.condition f) => [.invalidItem p.name item (.condition f)]
      | _ => [] := by
  unfold unlessRefused
  rw [said_tryCatch, h.calm.said_eq_nil]
  cases outcome host none holds with
  | ok b => rfl
  | error f => cases f <;> rfl

theorem said_conditionHolds {c : Option String} {text : String} {f : Condition.Fault}
    (h : conditionRefusal? host dirs p c = some (text, f)) :
    conditionVerdict host dirs p c = .ok false ∧
      said host none (conditionHolds dirs p c) = [.invalidItem p.name text (.condition f)] := by
  cases c with
  | none => cases h
  | some c =>
    have hevaluate : Composed false (some p) (Condition.evaluate dirs (some p) c) :=
      Condition.composed_evaluate dirs c
    have hsaid : said host none (conditionHolds dirs p (some c)) = _ :=
      said_unlessRefused c hevaluate
    cases ho : outcome host none (Condition.evaluate dirs (some p) c) with
    | ok b => simp [conditionRefusal?, ho] at h
    | error e =>
      rw [ho] at hsaid
      cases e with
      | condition f' =>
        simp only [conditionRefusal?, ho, Option.some.injEq, Prod.mk.injEq] at h
        obtain ⟨rfl, rfl⟩ := h
        exact ⟨by simp only [conditionVerdict, ho, refusedAsFalse], hsaid⟩
      | _ => simp [conditionRefusal?, ho] at h

theorem said_applies {ref : FileRef} {whenPresent : Bool} {text : String} {f : Condition.Fault}
    (h : fileRefusal? host dirs p ref whenPresent = some (text, f)) :
    fileVerdict host dirs p ref whenPresent = .ok false ∧
      said host none (applies dirs p ref whenPresent) =
        [.invalidItem p.name text (.condition f)] := by
  have hexists : Composed false (some p) (Condition.fileExists dirs ref.name) :=
    Condition.composed_fileExists dirs ref.name
  have hfound : Composed false (some p)
      (do return (← Condition.fileExists dirs ref.name) == whenPresent) :=
    .bind hexists fun present => .pure (present == whenPresent)
  have hunless : Yields host p (unlessRefused p ref.name
      (do return (← Condition.fileExists dirs ref.name) == whenPresent)) _ :=
    yields_unlessRefused ref.name (.of_composed hfound.weaken)
  have hout : outcome host none (do return (← Condition.fileExists dirs ref.name) == whenPresent) =
      (outcome host none (Condition.fileExists dirs ref.name)).map (· == whenPresent) := by
    rw [hexists.outcome_bind fun present => .pure (present == whenPresent)]
    cases outcome host none (Condition.fileExists dirs ref.name) <;> rfl
  have hcond : Yields host p (conditionHolds dirs p ref.condition) _ :=
    yields_conditionHolds ref.condition
  have hsaid : said host none (applies dirs p ref whenPresent) = _ :=
    hunless.composed.said_bind fun found : Bool =>
      .ite (p := found = true) hcond.composed (.pure false)
  rw [said_unlessRefused ref.name hfound, hunless.outcome, hout] at hsaid
  unfold fileRefusal? at h
  unfold fileVerdict
  cases ho : outcome host none (Condition.fileExists dirs ref.name) with
  | error e =>
    rw [ho] at h hsaid
    cases e with
    | condition f' =>
      cases h
      exact ⟨rfl, hsaid⟩
    | _ => cases h
  | ok present =>
    rw [ho] at h hsaid
    dsimp only at h ⊢
    by_cases hpresent : present = whenPresent
    · rw [if_pos hpresent] at h
      obtain ⟨hverdict, hnote⟩ := said_conditionHolds h
      subst hpresent
      refine ⟨(if_pos rfl).trans hverdict, hsaid.trans ?_⟩
      simpa [refusedAsFalse, Except.map] using hnote
    · rw [if_neg hpresent] at h
      cases h

/-- A refused item finds nothing, and all that is said of it is that it is refused. -/
theorem check_refused {item : Clause} {text : String} {f : Condition.Fault}
    (h : item.refusal? host dirs p = some (text, f)) :
    outcome host none (item.check dirs p) = .ok none ∧
      said host none (item.check dirs p) = [.invalidItem p.name text (.condition f)] := by
  cases item with
  | requirement ref =>
    obtain ⟨hverdict, hsaid⟩ := said_applies h
    have hy : Yields host p (applies dirs p ref false) _ := yields_applies ref false
    have hc := checks_warnIf (.ofMissing p.name ref) hy
    rw [hverdict] at hc
    exact ⟨hc.outcome, (said_warnIf _ hy.composed).trans hsaid⟩
  | incompatibility ref =>
    obtain ⟨hverdict, hsaid⟩ := said_applies h
    have hy : Yields host p (applies dirs p ref true) _ := yields_applies ref true
    have hc := checks_warnIf (.ofIncompatible p.name ref) hy
    rw [hverdict] at hc
    exact ⟨hc.outcome, (said_warnIf _ hy.composed).trans hsaid⟩
  | message m =>
    obtain ⟨hverdict, hsaid⟩ := said_conditionHolds h
    have hy : Yields host p (conditionHolds dirs p m.condition) _ :=
      yields_conditionHolds m.condition
    have hc := checks_warnIf (.ofMessage p.name m) hy
    rw [hverdict] at hc
    exact ⟨hc.outcome, (said_warnIf _ hy.composed).trans hsaid⟩

end Clause

end Audit

/-! ## Records of a store -/

namespace Metadata

/-- Where a record is in a store: its place among the exact names or among the patterns. -/
inductive Slot where
  | exact (i : Nat)
  | pattern (i : Nat)
  deriving Repr, DecidableEq, Inhabited

theorem findIdx?_modify {α : Type} {p : α → Bool} {f : α → α} (h : ∀ a, p (f a) = p a)
    (l : List α) (i : Nat) : (l.modify i f).findIdx? p = l.findIdx? p := by
  induction l generalizing i with
  | nil => rw [List.modify_nil]
  | cons a l ih =>
    cases i with
    | zero => rw [List.modify_zero_cons, List.findIdx?_cons, List.findIdx?_cons, h]
    | succ i => rw [List.modify_succ_cons, List.findIdx?_cons, List.findIdx?_cons, ih]

theorem find?_eq_findIdx? {α : Type} (p : α → Bool) (l : List α) :
    l.find? p = (l.findIdx? p).bind (l[·]?) := by
  induction l with
  | nil => rfl
  | cons a l ih =>
    rw [List.findIdx?_cons, List.find?_cons]
    cases p a with
    | true => rfl
    | false =>
      rw [ih]
      cases l.findIdx? p <;> rfl

namespace Store

/-- Where the record is that is found for a plugin. -/
def slot? (s : Store) (plugin : String) : Option Slot :=
  match s.exact.findIdx? (·.1 = Text.lowerString plugin) with
  | some i => some (.exact i)
  | none =>
    (s.patterns.findIdx? fun (_, e) => e.pattern.accepts (Text.lowerString plugin)).map .pattern

def recordIn? (s : Store) : Slot → Option Record
  | .exact i => s.exact[i]?.map (·.2)
  | .pattern i => s.patterns[i]?.map (·.2.record)

/-- Changes one record of a store. -/
def modify (s : Store) (f : Record → Record) : Slot → Store
  | .exact i => { s with exact := s.exact.modify i fun (key, r) => (key, f r) }
  | .pattern i =>
    { s with
      patterns := s.patterns.modify i fun (key, e) => (key, { e with record := f e.record }) }

theorem get?_eq_findIdx? {α : Type} (m : Ordered α) (key : String) :
    m.get? key = ((m.findIdx? (·.1 = key)).bind (m[·]?)).map (·.2) := by
  rw [← find?_eq_findIdx?]
  induction m with
  | nil => rfl
  | cons item m ih =>
    obtain ⟨k, a⟩ := item
    by_cases hk : k = key
    · simp [Ordered.get?, hk]
    · have hb : (key == k) = false := beq_eq_false_iff_ne.2 (Ne.symm hk)
      simpa [Ordered.get?, List.lookup_cons, hb, hk] using ih

theorem lookup_eq_slot (s : Store) (plugin : String) :
    s.lookup plugin = (s.slot? plugin).bind s.recordIn? := by
  unfold lookup slot?
  simp only [get?_eq_findIdx?, find?_eq_findIdx?]
  cases hi : s.exact.findIdx? (·.1 = Text.lowerString plugin) with
  | none =>
    cases s.patterns.findIdx? fun (_, e) => e.pattern.accepts (Text.lowerString plugin) <;> rfl
  | some i =>
    obtain ⟨hlt, -⟩ := List.findIdx?_eq_some_iff_getElem.1 hi
    simp [recordIn?, List.getElem?_eq_getElem hlt]

/-- Which record is found does not depend on what is in the records. -/
theorem slot?_modify (s : Store) (f : Record → Record) (slot : Slot) (plugin : String) :
    (s.modify f slot).slot? plugin = s.slot? plugin := by
  cases slot with
  | exact i =>
    have hexact : ((s.modify f (.exact i)).exact.findIdx? (·.1 = Text.lowerString plugin)) =
        s.exact.findIdx? (·.1 = Text.lowerString plugin) := by
      refine findIdx?_modify ?_ s.exact i
      exact fun _ => rfl
    rw [slot?, hexact]
    rfl
  | pattern i =>
    have hpatterns : ((s.modify f (.pattern i)).patterns.findIdx? fun (_, e) =>
          e.pattern.accepts (Text.lowerString plugin)) =
        s.patterns.findIdx? fun (_, e) => e.pattern.accepts (Text.lowerString plugin) := by
      refine findIdx?_modify ?_ s.patterns i
      exact fun _ => rfl
    rw [slot?, hpatterns]
    rfl

theorem recordIn?_modify (s : Store) (f : Record → Record) (slot other : Slot) :
    (s.modify f slot).recordIn? other =
      if other = slot then (s.recordIn? slot).map f else s.recordIn? other := by
  cases slot with
  | exact i =>
    cases other with
    | exact j =>
      by_cases h : j = i
      · subst h
        cases hj : s.exact[j]? <;> simp [modify, recordIn?, hj]
      · simp [modify, recordIn?, h, Ne.symm h]
    | pattern j => rfl
  | pattern i =>
    cases other with
    | exact j => rfl
    | pattern j =>
      by_cases h : j = i
      · subst h
        cases hj : s.patterns[j]? <;> simp [modify, recordIn?, hj]
      · simp [modify, recordIn?, h, Ne.symm h]

end Store

/-- Where an item is in a record. -/
inductive Place where
  | requirement (i : Nat)
  | incompatibility (i : Nat)
  | message (i : Nat)
  deriving Repr, DecidableEq, Inhabited

namespace Record

/-- A record without one of its items. -/
def without (r : Record) : Place → Record
  | .requirement i => { r with requirements := r.requirements.map (·.eraseIdx i) }
  | .incompatibility i => { r with incompatibilities := r.incompatibilities.map (·.eraseIdx i) }
  | .message i => { r with messages := r.messages.map (·.eraseIdx i) }

/-- What a record has before one of its items. -/
def before (r : Record) : Place → Record
  | .requirement i => { requirements := r.requirements.map (·.take i) }
  | .incompatibility i =>
    { requirements := r.requirements
      incompatibilities := r.incompatibilities.map (·.take i) }
  | .message i =>
    { requirements := r.requirements
      incompatibilities := r.incompatibilities
      messages := r.messages.map (·.take i) }

end Record

end Metadata

namespace Audit

open Metadata Inspection

variable {host : Host.Fixed} {dirs : Host.Directories} {store : Store} {includeInfo : Bool}
  {p : Package}

def clauseIn? (r : Record) : Place → Option Clause
  | .requirement i => (r.requirements.getD [])[i]?.map .requirement
  | .incompatibility i => (r.incompatibilities.getD [])[i]?.map .incompatibility
  | .message i => (r.messages.getD [])[i]?.map .message

/-- The checks of some items of a record; there is none for a message that is not wanted. -/
def clauseChecks (dirs : Host.Directories) (includeInfo : Bool) (p : Package) {α : Type}
    (item : α → Clause) (l : List α) : List Check :=
  l.flatMap fun a => if (item a).isWanted includeInfo then [(item a).check dirs p] else []

theorem clauseChecks_nil {α : Type} (item : α → Clause) :
    clauseChecks dirs includeInfo p item [] = [] := rfl

variable (dirs includeInfo p) in
/-- The checks of items around one of them, and without it. -/
theorem clauseChecks_split {α : Type} (item : α → Clause) {l : List α} {i : Nat} {a : α}
    (h : l[i]? = some a) :
    clauseChecks dirs includeInfo p item l =
        clauseChecks dirs includeInfo p item (l.take i) ++
          ((if (item a).isWanted includeInfo then [(item a).check dirs p] else []) ++
            clauseChecks dirs includeInfo p item (l.drop (i + 1))) ∧
      clauseChecks dirs includeInfo p item (l.eraseIdx i) =
        clauseChecks dirs includeInfo p item (l.take i) ++
          clauseChecks dirs includeInfo p item (l.drop (i + 1)) := by
  obtain ⟨hi, rfl⟩ := List.getElem?_eq_some_iff.1 h
  unfold clauseChecks
  constructor
  · have hl : l = l.take i ++ l[i] :: l.drop (i + 1) := by
      rw [← List.drop_eq_getElem_cons hi, List.take_append_drop]
    conv_lhs => rw [hl, List.flatMap_append, List.flatMap_cons]
  · rw [List.eraseIdx_eq_take_drop_succ, List.flatMap_append]

theorem recordChecks_eq (r : Record) :
    recordChecks dirs includeInfo p r =
      clauseChecks dirs includeInfo p .requirement (r.requirements.getD []) ++
        (clauseChecks dirs includeInfo p .incompatibility (r.incompatibilities.getD []) ++
          (clauseChecks dirs includeInfo p .message (r.messages.getD []) ++
            (r.dirtyInfo.getD []).map (dirtyCheck p))) := by
  have hmap (α : Type) (f : α → Check) (l : List α) :
      l.map f = l.flatMap fun a => if true then [f a] else [] := by
    induction l with
    | nil => rfl
    | cons a l ih => rw [List.map_cons, List.flatMap_cons, ih]; rfl
  have hfilter (l : List Message) : (l.filter (isWanted includeInfo)).map (messageCheck dirs p) =
      clauseChecks dirs includeInfo p .message l := by
    induction l with
    | nil => rfl
    | cons m l ih =>
      rw [clauseChecks, List.flatMap_cons, ← clauseChecks, ← ih]
      cases hm : isWanted includeInfo m <;> simp [Clause.isWanted, Clause.check, hm]
  rw [recordChecks, hmap, hmap, hfilter, List.append_assoc, List.append_assoc]
  rfl

variable (dirs includeInfo p) in
/-- The checks of a record around the check of one of its items, if there is one. -/
theorem recordChecks_split {r : Record} {place : Place} {item : Clause}
    (h : clauseIn? r place = some item) :
    ∃ rest, recordChecks dirs includeInfo p r =
        recordChecks dirs includeInfo p (r.before place) ++
          ((if item.isWanted includeInfo then [item.check dirs p] else []) ++ rest) ∧
      recordChecks dirs includeInfo p (r.without place) =
        recordChecks dirs includeInfo p (r.before place) ++ rest := by
  obtain ⟨reqs, incs, msgs, dirty⟩ := r
  simp only [recordChecks_eq]
  cases place with
  | requirement i =>
    cases reqs with
    | none => cases h
    | some l =>
      obtain ⟨ref, href, rfl⟩ := Option.map_eq_some_iff.1 h
      rw [Option.getD_some] at href
      obtain ⟨hall, herase⟩ := clauseChecks_split dirs includeInfo p .requirement href
      refine ⟨clauseChecks dirs includeInfo p .requirement (l.drop (i + 1)) ++
        (clauseChecks dirs includeInfo p .incompatibility (incs.getD []) ++
          (clauseChecks dirs includeInfo p .message (msgs.getD []) ++
            (dirty.getD []).map (dirtyCheck p))), ?_, ?_⟩
      · simp only [Record.before, Option.map_some, Option.getD_some, Option.getD_none, hall,
          clauseChecks_nil, List.map_nil, List.append_nil, List.append_assoc]
      · simp only [Record.before, Record.without, Option.map_some, Option.getD_some,
          Option.getD_none, herase, clauseChecks_nil, List.map_nil, List.append_nil,
          List.append_assoc]
  | incompatibility i =>
    cases incs with
    | none => cases h
    | some l =>
      obtain ⟨ref, href, rfl⟩ := Option.map_eq_some_iff.1 h
      rw [Option.getD_some] at href
      obtain ⟨hall, herase⟩ := clauseChecks_split dirs includeInfo p .incompatibility href
      refine ⟨clauseChecks dirs includeInfo p .incompatibility (l.drop (i + 1)) ++
        (clauseChecks dirs includeInfo p .message (msgs.getD []) ++
          (dirty.getD []).map (dirtyCheck p)), ?_, ?_⟩
      · simp only [Record.before, Option.map_some, Option.getD_some, Option.getD_none, hall,
          clauseChecks_nil, List.map_nil, List.append_nil, List.append_assoc]
      · simp only [Record.before, Record.without, Option.map_some, Option.getD_some,
          Option.getD_none, herase, clauseChecks_nil, List.map_nil, List.append_nil,
          List.append_assoc]
  | message i =>
    cases msgs with
    | none => cases h
    | some l =>
      obtain ⟨m, hm, rfl⟩ := Option.map_eq_some_iff.1 h
      rw [Option.getD_some] at hm
      obtain ⟨hall, herase⟩ := clauseChecks_split dirs includeInfo p .message hm
      refine ⟨clauseChecks dirs includeInfo p .message (l.drop (i + 1)) ++
        (dirty.getD []).map (dirtyCheck p), ?_, ?_⟩
      · simp only [Record.before, Option.map_some, Option.getD_some, Option.getD_none, hall,
          List.map_nil, List.append_nil, List.append_assoc]
      · simp only [Record.before, Record.without, Option.map_some, Option.getD_some,
          Option.getD_none, herase, List.map_nil, List.append_nil, List.append_assoc]

/-! ## The pass without an item -/

section

variable (host : Host.Fixed) (dirs : Host.Directories) (store : Store) (includeInfo : Bool)
  (slot : Slot) (r : Record) (place : Place) (item : Clause) (p : Package)

/-- Whether a pass checks an item for a plugin: the record of the item is found for the plugin, the
item is wanted, and none of the checks before it fails. -/
def performs : Bool :=
  store.slot? p.name = some slot && item.isWanted includeInfo &&
    completes host (formIdCheck p :: recordChecks dirs includeInfo p (r.before place))

/-- What is said of an item that is refused, if it is checked. -/
def refusalNote : List Log.Event :=
  if performs host dirs store includeInfo slot r place item p then
    ((item.refusal? host dirs p).map fun (text, f) =>
      .invalidItem p.name text (.condition f)).toList
  else []

end

/-- The checks of a plugin for which a record is found. -/
theorem checks_of_slot {slot : Slot} {r : Record} (hslot : store.slot? p.name = some slot)
    (hr : store.recordIn? slot = some r) :
    checks dirs store includeInfo p = formIdCheck p :: recordChecks dirs includeInfo p r := by
  have hlookup : store.lookup p.name = some r := by
    rw [Store.lookup_eq_slot, hslot]
    exact hr
  rw [checks, hlookup]

/-- Records that are not found for a plugin do not count. -/
theorem checks_modify_of_ne {slot : Slot} (f : Record → Record)
    (hslot : store.slot? p.name ≠ some slot) :
    checks dirs (store.modify f slot) includeInfo p = checks dirs store includeInfo p := by
  have hlookup : (store.modify f slot).lookup p.name = store.lookup p.name := by
    rw [Store.lookup_eq_slot, Store.lookup_eq_slot, Store.slot?_modify]
    cases hs : store.slot? p.name with
    | none => rfl
    | some other =>
      have hne : other ≠ slot := fun h => hslot (hs.trans (congrArg some h))
      exact (Store.recordIn?_modify store f slot other).trans (if_neg hne)
  rw [checks, checks, hlookup]

/-- For one plugin, a refused item makes no difference to what is found, and a note to what is
said. -/
theorem checks_without {slot : Slot} {place : Place} {r : Record} {item : Clause}
    (hr : store.recordIn? slot = some r) (hitem : clauseIn? r place = some item)
    (h : performs host dirs store includeInfo slot r place item p = true →
      (item.refusal? host dirs p).isSome) :
    found host (checks dirs (store.modify (·.without place) slot) includeInfo p) =
        found host (checks dirs store includeInfo p) ∧
      ∃ before after : List Log.Event,
        told host (checks dirs (store.modify (·.without place) slot) includeInfo p) =
          before ++ after ∧
        told host (checks dirs store includeInfo p) =
          before ++ refusalNote host dirs store includeInfo slot r place item p ++ after := by
  unfold performs at h
  unfold refusalNote performs
  by_cases hslot : store.slot? p.name = some slot
  · have hslot' : (store.modify (·.without place) slot).slot? p.name = some slot := by
      rw [Store.slot?_modify]
      exact hslot
    have hr' : (store.modify (·.without place) slot).recordIn? slot = some (r.without place) := by
      rw [Store.recordIn?_modify, if_pos rfl, hr]
      rfl
    obtain ⟨rest, hall, hwithout⟩ := recordChecks_split dirs includeInfo p hitem
    rw [checks_of_slot hslot hr, checks_of_slot hslot' hr', hall, hwithout]
    rw [← List.cons_append, ← List.cons_append]
    rw [decide_eq_true hslot, Bool.true_and] at h ⊢
    generalize formIdCheck p :: recordChecks dirs includeInfo p (r.before place) = earlier at h ⊢
    cases hw : item.isWanted includeInfo with
    | false => exact ⟨rfl, told host (earlier ++ rest), [], by simp⟩
    | true =>
      cases hc : completes host earlier with
      | false =>
        have hfound (more : List Check) : found host (earlier ++ more) = found host earlier := by
          rw [found_append, hc]
          rfl
        have htold (more : List Check) : told host (earlier ++ more) = told host earlier := by
          rw [told_append, hc]
          exact List.append_nil _
        exact ⟨(hfound _).trans (hfound _).symm, told host earlier, [], by simp [htold]⟩
      | true =>
        obtain ⟨⟨text, f⟩, hrefusal⟩ := Option.isSome_iff_exists.1 (h (by rw [hw, hc]; rfl))
        obtain ⟨hnothing, hsaid⟩ := Clause.check_refused hrefusal
        refine ⟨(found_of_nothing hnothing earlier rest).symm, told host earlier, told host rest,
          ?_, ?_⟩
        · rw [told_append, hc]
          rfl
        · have htold := told_of_nothing hnothing earlier rest
          rw [hc, hsaid] at htold
          rw [hrefusal]
          exact htold
  · rw [checks_modify_of_ne _ hslot]
    exact ⟨rfl, told host (checks dirs store includeInfo p), [], by simp [hslot]⟩

theorem pluginWarnings_without {slot : Slot} {place : Place} {r : Record} {item : Clause}
    (hr : store.recordIn? slot = some r) (hitem : clauseIn? r place = some item) (path : String)
    (h : performs host dirs store includeInfo slot r place item ⟨path⟩ = true →
      (item.refusal? host dirs ⟨path⟩).isSome) :
    (Dialogue.run host
          (pluginWarnings dirs (store.modify (·.without place) slot) includeInfo path)).2 =
        (Dialogue.run host (pluginWarnings dirs store includeInfo path)).2 ∧
      ∃ before after : List Log.Event,
        Log.serious (Dialogue.run host
            (pluginWarnings dirs (store.modify (·.without place) slot) includeInfo path)).1 =
          before ++ after ∧
        Log.serious (Dialogue.run host (pluginWarnings dirs store includeInfo path)).1 =
          before ++ refusalNote host dirs store includeInfo slot r place item ⟨path⟩ ++ after := by
  obtain ⟨hfound, before, after, htold', htold⟩ := checks_without hr hitem h
  obtain ⟨hws, hnotes⟩ := run_pluginWarnings_eq host dirs store includeInfo path
  obtain ⟨hws', hnotes'⟩ :=
    run_pluginWarnings_eq host dirs (store.modify (·.without place) slot) includeInfo path
  rw [hws, hws', hnotes, hnotes', hfound, htold, htold']
  exact ⟨rfl, before, after ++ _, List.append_assoc .., List.append_assoc ..⟩

/-- The plugins that a host finds; none if it fails to look for them. -/
def plugins (host : Host.Fixed) : List String :=
  match (host (.findFiles "" isPluginName) : Except Failure (List String)) with
  | .ok paths => paths
  | .error _ => []

/-- A pass, whether or not its plugins are found, is about each plugin alone. -/
theorem run_warnings_eq (host : Host.Fixed) (dirs : Host.Directories) (store : Store)
    (includeInfo : Bool) :
    (Dialogue.run host (warnings dirs store includeInfo)).2 =
        (host (.findFiles "" isPluginName) : Except Failure (List String)).map (fun _ =>
          (plugins host).flatMap fun path =>
            (Dialogue.run host (pluginWarnings dirs store includeInfo path)).2) ∧
      Log.serious (Dialogue.run host (warnings dirs store includeInfo)).1 =
        (plugins host).flatMap fun path =>
          Log.serious (Dialogue.run host (pluginWarnings dirs store includeInfo path)).1 := by
  rw [warnings_eq, plugins]
  simp only [Dialogue.run]
  cases host (.findFiles "" isPluginName) with
  | error f => exact ⟨rfl, rfl⟩
  | ok paths =>
    obtain ⟨hws, hnotes⟩ := run_eachPlugin_eq host dirs store includeInfo paths
    simp only [Dialogue.run, Dialogue.run_bind, hws, List.append_nil]
    exact ⟨rfl, hnotes⟩

/-- An item that is refused whenever it is checked behaves as if it were not in its record: the
warnings are the same, and so is what is reported of warnings and errors but for one note each time
that it is checked. -/
theorem warnings_without (host : Host.Fixed) (dirs : Host.Directories) (store : Store)
    (includeInfo : Bool) {slot : Slot} {place : Place} {r : Record} {item : Clause}
    (hr : store.recordIn? slot = some r) (hitem : clauseIn? r place = some item)
    (h : ∀ path ∈ plugins host,
      performs host dirs store includeInfo slot r place item ⟨path⟩ = true →
        (item.refusal? host dirs ⟨path⟩).isSome) :
    let pass := Dialogue.run host (warnings dirs store includeInfo)
    let pass' := Dialogue.run host
      (warnings dirs (store.modify (·.without place) slot) includeInfo)
    pass'.2 = pass.2 ∧
      ∃ before after : String → List Log.Event,
        Log.serious pass'.1 = ((plugins host).flatMap fun path => before path ++ after path) ∧
        Log.serious pass.1 = (plugins host).flatMap fun path =>
          before path ++ refusalNote host dirs store includeInfo slot r place item ⟨path⟩ ++
            after path := by
  intro pass pass'
  have hplugin : ∀ path, ∃ before after : List Log.Event, path ∈ plugins host →
      (Dialogue.run host
            (pluginWarnings dirs (store.modify (·.without place) slot) includeInfo path)).2 =
          (Dialogue.run host (pluginWarnings dirs store includeInfo path)).2 ∧
        Log.serious (Dialogue.run host
            (pluginWarnings dirs (store.modify (·.without place) slot) includeInfo path)).1 =
          before ++ after ∧
        Log.serious (Dialogue.run host (pluginWarnings dirs store includeInfo path)).1 =
          before ++ refusalNote host dirs store includeInfo slot r place item ⟨path⟩ ++ after := by
    intro path
    by_cases hpath : path ∈ plugins host
    · obtain ⟨hws, before, after, hnotes⟩ := pluginWarnings_without hr hitem path (h path hpath)
      exact ⟨before, after, fun _ => ⟨hws, hnotes⟩⟩
    · exact ⟨[], [], fun hmem => absurd hmem hpath⟩
  choose before after hplugin using hplugin
  obtain ⟨hws, hnotes⟩ := run_warnings_eq host dirs store includeInfo
  obtain ⟨hws', hnotes'⟩ :=
    run_warnings_eq host dirs (store.modify (·.without place) slot) includeInfo
  refine ⟨?_, before, after, ?_, ?_⟩
  · have hflat := List.flatMap_congr fun path hpath => (hplugin path hpath).1
    rw [hws', hws, hflat]
  · rw [hnotes', List.flatMap_congr fun path hpath => (hplugin path hpath).2.1]
  · rw [hnotes, List.flatMap_congr fun path hpath => (hplugin path hpath).2.2]

/-- Two plugins share a record with a condition that lacks a quotation mark; each keeps the warning
of the other message. -/
theorem warnings_without_broken :
    let host : Host.Memory := {
      files := [("/game/Data/Mod1.esp", ⟨#[1]⟩), ("/game/Data/Mod2.esp", ⟨#[1]⟩)] }
    let broken : Message := ⟨.warn, .plain "broken", none, some "active(\"Mod1.esp)"⟩
    let kept : Message := ⟨.warn, .plain "kept", none, none⟩
    let r : Record := { messages := some [broken, kept] }
    let store := (({} : Store).add "Mod\\d\\.esp" r).toOption.getD {}
    let pass := host.run (warnings host.directories store false)
    let pass' := host.run
      (warnings host.directories (store.modify (·.without (.message 0)) (.pattern 0)) false)
    store.recordIn? (.pattern 0) = some r ∧
      clauseIn? r (.message 0) = some (.message broken) ∧
      plugins host.answer = ["/game/Data/Mod1.esp", "/game/Data/Mod2.esp"] ∧
      (∀ path ∈ plugins host.answer,
        performs host.answer host.directories store false (.pattern 0) r (.message 0)
          (.message broken) ⟨path⟩ = true →
        ((Clause.message broken).refusal? host.answer host.directories ⟨path⟩).isSome) ∧
      pass.2 = .ok [.ofMessage "Mod1.esp" kept, .ofMessage "Mod2.esp" kept] ∧
      (Log.serious pass.1).length = 2 ∧ pass'.2 = pass.2 ∧ Log.serious pass'.1 = [] := by
  intro host broken kept r store pass pass'
  have hr : store.recordIn? (.pattern 0) = some r := by decide +kernel
  have hitem : clauseIn? r (.message 0) = some (.message broken) := rfl
  have hplugins : plugins host.answer = ["/game/Data/Mod1.esp", "/game/Data/Mod2.esp"] := by
    decide +kernel
  have hrefused : ∀ path ∈ ["/game/Data/Mod1.esp", "/game/Data/Mod2.esp"],
      ((Clause.message broken).refusal? host.answer host.directories ⟨path⟩).isSome = true := by
    decide +kernel
  have h : ∀ path ∈ plugins host.answer, performs host.answer host.directories store false
      (.pattern 0) r (.message 0) (.message broken) ⟨path⟩ = true →
        ((Clause.message broken).refusal? host.answer host.directories ⟨path⟩).isSome := by
    intro path hpath _
    rw [hplugins] at hpath
    exact hrefused path hpath
  obtain ⟨hsame, -⟩ := warnings_without host.answer host.directories store false hr hitem h
  have hpass : pass.2 = .ok [.ofMessage "Mod1.esp" kept, .ofMessage "Mod2.esp" kept] := by
    decide +kernel
  have hcount : (Log.serious pass.1).length = 2 := by decide +kernel
  have hnone : Log.serious pass'.1 = [] := by decide +kernel
  exact ⟨hr, hitem, hplugins, h, hpass, hcount, hsame, hnone⟩

end Audit

end PluginAudit
