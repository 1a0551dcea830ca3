import PluginAudit.Audit
import PluginAudit.Host.Memory
import PluginAudit.Proofs.ConditionSteps
import Mathlib.Data.List.Forall2

/-!
# A pass over the plugins, plugin by plugin

What a pass warns about is described without dialogues, known facts or handlers: every plugin has a
list of items, each a warning with the verdict whether it applies, and its report is what applies up
to the first verdict that is a failure. All verdicts are obtained as if nothing else had been looked
at. The pass is the reports of the plugins one after the other (`warnings_eq_reports`).
-/

namespace PluginAudit.Audit

open Metadata Inspection

/-! ## The report on one plugin -/

/-- A warning, and whether it applies. -/
abbrev Item := Warning × Except Failure Bool

section

variable (host : Host.Fixed) (dirs : Host.Directories) (store : Store) (includeInfo : Bool)

/-- What is refused counts as not holding. -/
def refusedAsFalse : Except Failure Bool → Except Failure Bool
  | .error (.condition _) => .ok false
  | r => r

/-- Whether the condition of an item is missing or true. -/
def conditionVerdict (p : Package) : Option String → Except Failure Bool
  | none => .ok true
  | some c => refusedAsFalse (outcome host none (Condition.evaluate dirs (some p) c))

/-- Whether a file is present, or absent, as given, and the condition of the reference is missing or
true. -/
def fileVerdict (p : Package) (ref : FileRef) (whenPresent : Bool) : Except Failure Bool :=
  match outcome host none (Condition.fileExists dirs ref.name) with
  | .error f => refusedAsFalse (.error f)
  | .ok present =>
    if present = whenPresent then conditionVerdict host dirs p ref.condition else .ok false

/-- Whether the plugin is light and not valid as light; where it is not well formed, it is not. -/
def formIdVerdict (p : Package) : Except Failure Bool :=
  match outcome host none p.isLight, outcome host none p.isValidAsLight with
  | .error (.plugin _), _ => .ok false
  | .error f, _ => .error f
  | .ok false, _ => .ok false
  | .ok true, .error (.plugin _) => .ok false
  | .ok true, .error f => .error f
  | .ok true, .ok valid => .ok !valid

/-- Whether the plugin is in a state known to be dirty. -/
def dirtyVerdict (p : Package) (info : DirtyInfo) : Except Failure Bool :=
  (outcome host none p.checksum).map (· == info.crc)

/-- The items of a plugin's metadata: requirements that are absent, incompatibilities that are
present, messages that are wanted, dirty states. -/
def recordItems (p : Package) (r : Record) : List Item :=
  (r.requirements.getD []).map
      (fun ref => (.ofMissing p.name ref, fileVerdict host dirs p ref false)) ++
    (r.incompatibilities.getD []).map
      (fun ref => (.ofIncompatible p.name ref, fileVerdict host dirs p ref true)) ++
    ((r.messages.getD []).filter (isWanted includeInfo)).map
      (fun m => (.ofMessage p.name m, conditionVerdict host dirs p m.condition)) ++
    (r.dirtyInfo.getD []).map (fun info => (.ofDirty p.name info, dirtyVerdict host p info))

/-- The items of a plugin; there is always the one about its identifiers. -/
def items (p : Package) : List Item :=
  (.ofFormIds p.name, formIdVerdict host p) :: match store.lookup p.name with
    | none => []
    | some r => recordItems host dirs includeInfo p r

/-- The warnings that apply, up to the first verdict that is a failure, and that failure. -/
def report : List Item → List Warning × Option Failure
  | [] => ([], none)
  | (_, .error f) :: _ => ([], some f)
  | (w, .ok applies) :: rest =>
    ((if applies then [w] else []) ++ (report rest).1, (report rest).2)

def reportOn (path : String) : List Warning × Option Failure :=
  report (items host dirs store includeInfo ⟨path⟩)

end

/-! ## Checks find what their items say -/

variable {host : Host.Fixed} {dirs : Host.Directories} {store : Store} {includeInfo : Bool}
  {p : Package}

/-- An inspection of a plugin has a result, whatever was looked at before it. -/
structure Yields (host : Host.Fixed) (p : Package) {α : Type} (i : Inspection α)
    (r : Except Failure α) : Prop where
  composed : Composed true (some p) i
  outcome : outcome host none i = r

namespace Yields

variable {α β : Type} {i : Inspection α} {r : Except Failure α}

theorem of_composed (h : Composed true (some p) i) :
    Yields host p i (Inspection.outcome host none i) :=
  ⟨h, rfl⟩

theorem pure (a : α) : Yields host p (pure a) (.ok a) := ⟨.pure a, rfl⟩

theorem bind {f : α → Inspection β} {g : α → Except Failure β} (hi : Yields host p i r)
    (hf : ∀ a, Yields host p (f a) (g a)) : Yields host p (i >>= f) (r >>= g) := by
  refine ⟨.bind hi.composed fun a => (hf a).composed, ?_⟩
  rw [hi.composed.outcome_bind fun a => (hf a).composed, hi.outcome]
  exact congrArg (r >>= ·) (funext fun a => (hf a).outcome)

theorem tryCatch {h : Failure → Inspection α} {g : Failure → Except Failure α}
    (hi : Yields host p i r) (hh : ∀ e, Yields host p (h e) (g e)) :
    Yields host p (tryCatch i h) (tryCatch r g) := by
  refine ⟨.tryCatch hi.composed fun e => (hh e).composed, ?_⟩
  rw [hi.composed.outcome_tryCatch fun e => (hh e).composed, hi.outcome]
  cases r with
  | ok a => rfl
  | error e => exact (hh e).outcome

theorem ite {q : Prop} [Decidable q] {j : Inspection α} {r' : Except Failure α}
    (hi : Yields host p i r) (hj : Yields host p j r') :
    Yields host p (if q then i else j) (if q then r else r') := by
  split
  · exact hi
  · exact hj

end Yields

/-- A check finds what its item says. -/
def Checks (host : Host.Fixed) (p : Package) (c : Check) (item : Item) : Prop :=
  Yields host p c (item.2.map fun applies => if applies then some item.1 else none)

theorem checks_warnIf (w : Warning) {holds : Inspection Bool} {r : Except Failure Bool}
    (h : Yields host p holds r) : Checks host p (warnIf w holds) (w, r) := by
  have hb := h.bind fun b => Yields.pure (if b = true then some w else none)
  cases r <;> exact hb

theorem yields_unlessRefused (item : String) {holds : Inspection Bool} {r : Except Failure Bool}
    (h : Yields host p holds r) :
    Yields host p (unlessRefused p item holds) (refusedAsFalse r) := by
  have hr : refusedAsFalse r = tryCatch r fun e => refusedAsFalse (.error e) := by
    cases r <;> rfl
  rw [hr]
  unfold unlessRefused
  refine h.tryCatch fun e => ?_
  cases e with
  | condition f => exact ⟨.bind (.report _ (by simp [Log.Event.level])) fun _ => .pure _, rfl⟩
  | _ => exact ⟨.throw _, rfl⟩

theorem yields_conditionHolds (c : Option String) :
    Yields host p (conditionHolds dirs p c) (conditionVerdict host dirs p c) := by
  cases c with
  | none => exact .pure true
  | some c => exact yields_unlessRefused c (.of_composed (Condition.composed_evaluate dirs c))

theorem yields_applies (ref : FileRef) (whenPresent : Bool) :
    Yields host p (applies dirs p ref whenPresent) (fileVerdict host dirs p ref whenPresent) := by
  have hf : Yields host p (do return (← Condition.fileExists dirs ref.name) == whenPresent)
      (outcome host none (Condition.fileExists dirs ref.name) >>= fun present =>
        .ok (present == whenPresent)) :=
    (Yields.of_composed (Condition.composed_fileExists dirs ref.name)).bind fun present =>
      .pure (present == whenPresent)
  have ha : Yields host p (applies dirs p ref whenPresent) _ :=
    (yields_unlessRefused ref.name hf).bind fun found : Bool =>
      Yields.ite (q := found = true) (yields_conditionHolds ref.condition) (.pure false)
  refine ⟨ha.composed, ha.outcome.trans ?_⟩
  unfold fileVerdict
  cases outcome host none (Condition.fileExists dirs ref.name) with
  | error f => cases f <;> rfl
  | ok present =>
    by_cases h : present = whenPresent
    · subst h
      simp [bind, Except.bind, refusedAsFalse]
    · simp [bind, Except.bind, refusedAsFalse, h]

theorem yields_hasBadFormIds : Yields host p (hasBadFormIds p)
    (outcome host none p.isLight >>= fun light : Bool =>
      if light then outcome host none p.isValidAsLight >>= fun valid => .ok !valid
      else .ok false) := by
  have hv : Yields host p (do return !(← p.isValidAsLight))
      (outcome host none p.isValidAsLight >>= fun valid => .ok !valid) :=
    (Yields.of_composed (Package.composed_isValidAsLight rfl)).bind fun valid => .pure !valid
  exact (Yields.of_composed (Package.composed_isLight rfl)).bind fun light : Bool =>
    Yields.ite (q := light = true) hv (.pure false)

/-- What is not well formed counts as not holding. -/
def malformedAsFalse : Except Failure Bool → Except Failure Bool
  | .error (.plugin _) => .ok false
  | r => r

theorem formIdVerdict_eq :
    formIdVerdict host p =
      tryCatch (outcome host none p.isLight >>= fun light : Bool =>
        if light then outcome host none p.isValidAsLight >>= fun valid => .ok !valid
        else .ok false) fun e => malformedAsFalse (.error e) := by
  unfold formIdVerdict
  cases outcome host none p.isLight with
  | error f => cases f <;> rfl
  | ok light =>
    cases light with
    | false => rfl
    | true =>
      cases outcome host none p.isValidAsLight with
      | error f => cases f <;> rfl
      | ok valid => rfl

theorem checks_formIdCheck :
    Checks host p (formIdCheck p) (.ofFormIds p.name, formIdVerdict host p) := by
  rw [formIdVerdict_eq]
  unfold formIdCheck
  refine checks_warnIf _ (yields_hasBadFormIds.tryCatch fun e => ?_)
  cases e with
  | plugin f => exact ⟨.bind (.report _ (by simp [Log.Event.level])) fun _ => .pure _, rfl⟩
  | _ => exact ⟨.throw _, rfl⟩

theorem yields_isDirty (info : DirtyInfo) :
    Yields host p (do return (← p.checksum) == info.crc) (dirtyVerdict host p info) := by
  have hc : Yields host p (do return (← p.checksum) == info.crc) _ :=
    (Yields.of_composed (Condition.composed_checksum rfl)).bind fun crc => .pure (crc == info.crc)
  refine ⟨hc.composed, hc.outcome.trans ?_⟩
  unfold dirtyVerdict
  cases outcome host none p.checksum <;> rfl

theorem forall₂_map {α β γ : Type} {R : β → γ → Prop} {f : α → β} {g : α → γ} (l : List α)
    (h : ∀ a, R (f a) (g a)) : List.Forall₂ R (l.map f) (l.map g) :=
  List.forall₂_map_left_iff.2 (List.forall₂_map_right_iff.2 (List.forall₂_same.2 fun a _ => h a))

theorem checks_recordChecks (r : Record) :
    List.Forall₂ (Checks host p) (recordChecks dirs includeInfo p r)
      (recordItems host dirs includeInfo p r) := by
  unfold recordChecks recordItems
  refine List.rel_append (List.rel_append (List.rel_append ?_ ?_) ?_) ?_
  · exact forall₂_map _ fun ref => checks_warnIf _ (yields_applies ref false)
  · exact forall₂_map _ fun ref => checks_warnIf _ (yields_applies ref true)
  · exact forall₂_map _ fun m => checks_warnIf _ (yields_conditionHolds m.condition)
  · exact forall₂_map _ fun info => checks_warnIf _ (yields_isDirty info)

theorem checks_checks :
    List.Forall₂ (Checks host p) (checks dirs store includeInfo p)
      (items host dirs store includeInfo p) := by
  unfold checks items
  refine .cons checks_formIdCheck ?_
  cases store.lookup p.name with
  | none => exact .nil
  | some r => exact checks_recordChecks r

/-! ## Checks one after the other -/

theorem findings_cons (c : Check) (cs : List Check) (s : Option Facts) :
    findings (c :: cs) s = (c s).bind fun (r, s') =>
      match r with
      | .error f => .done (([], some f), s')
      | .ok w => (findings cs s').bind fun ((ws, f), s'') => .done ((w.toList ++ ws, f), s'') := by
  show Dialogue.bind (c s) _ = _
  congr 1
  funext x
  rcases x with ⟨f | w, s'⟩ <;> rfl

theorem run_findings_cons (c : Check) (cs : List Check) (s : Option Facts) :
    (Dialogue.run host (findings (c :: cs) s)).2.1 =
      match outcome host s c with
      | .error f => ([], some f)
      | .ok w =>
        let (ws, f) := (Dialogue.run host (findings cs (after host s c))).2.1
        (w.toList ++ ws, f) := by
  rw [findings_cons, Dialogue.run_bind]
  unfold outcome after hold
  rcases Dialogue.run host (c s) with ⟨lines, f | w, s'⟩
  · rfl
  · simp only [Dialogue.run_bind, Dialogue.run]

/-- The facts that become known from check to check make no difference. -/
theorem run_findings {cs : List Check} {its : List Item} (h : List.Forall₂ (Checks host p) cs its)
    {s : Option Facts} (hs : Since host (some p) none s) :
    (Dialogue.run host (findings cs s)).2.1 = report its := by
  induction h generalizing s with
  | nil => rfl
  | @cons c it cs its hc _ ih =>
    obtain ⟨ho, ha⟩ := hc.composed.steady s hs
    rw [run_findings_cons, ho, hc.outcome, ih ha]
    obtain ⟨w, f | applies⟩ := it
    · rfl
    · cases applies <;> rfl

/-! ## Errors -/

/-- The errors a transcript tells of. -/
def errors (lines : List (Dialogue.Line Host.Query Log.Event)) : List Log.Event :=
  (lines.filterMap (·.note?)).filter (·.level = .error)

theorem errors_append (lines lines' : List (Dialogue.Line Host.Query Log.Event)) :
    errors (lines ++ lines') = errors lines ++ errors lines' := by
  simp [errors]

theorem errors_eq_nil {lines : List (Dialogue.Line Host.Query Log.Event)}
    (h : ∀ line ∈ lines, Dialogue.Allows Log.quiet line) : errors lines = [] := by
  refine List.filter_eq_nil_iff.2 fun e he => ?_
  obtain ⟨line, hl, hn⟩ := List.mem_filterMap.1 he
  cases line with
  | asked q => cases hn
  | noted n =>
    cases hn
    have hq : e.level ≠ .error := h _ hl
    simpa using hq

theorem obeys_findings {cs : List Check} {its : List Item}
    (h : List.Forall₂ (Checks host p) cs its) (s : Option Facts) :
    Dialogue.Obeys Log.quiet (fun _ => True) (findings cs s) := by
  induction h generalizing s with
  | nil => trivial
  | cons hc _ ih =>
    rw [findings_cons]
    refine (hc.composed.quiet.dialogue s).bind fun x _ => ?_
    rcases x with ⟨f | w, s'⟩
    · trivial
    · exact (ih s').bind fun _ _ => trivial

theorem errors_findings {cs : List Check} {its : List Item}
    (h : List.Forall₂ (Checks host p) cs its) (s : Option Facts) :
    errors (Dialogue.run host (findings cs s)).1 = [] :=
  errors_eq_nil ((obeys_findings h s).run fun _ => trivial).1

/-! ## One plugin and all plugins -/

theorem pluginWarnings_eq (path : String) :
    pluginWarnings dirs store includeInfo path =
      (findings (checks dirs store includeInfo ⟨path⟩) none).bind fun ((ws, failure), _) =>
        match failure with
        | none => .done ws
        | some f => .note (.failedPlugin (Package.name ⟨path⟩) f) fun _ => .done ws := by
  show Dialogue.bind _ _ = _
  congr 1

/-- A plugin yields its report, and an error if its report ends with a failure. -/
theorem run_pluginWarnings (path : String) :
    (Dialogue.run host (pluginWarnings dirs store includeInfo path)).2 =
        (reportOn host dirs store includeInfo path).1 ∧
      errors (Dialogue.run host (pluginWarnings dirs store includeInfo path)).1 =
        ((reportOn host dirs store includeInfo path).2.map
          (.failedPlugin (Package.name ⟨path⟩))).toList := by
  have hc : List.Forall₂ (Checks host ⟨path⟩) (checks dirs store includeInfo ⟨path⟩)
      (items host dirs store includeInfo ⟨path⟩) := checks_checks
  have hr : (Dialogue.run host (findings (checks dirs store includeInfo ⟨path⟩) none)).2.1 =
      reportOn host dirs store includeInfo path := run_findings hc .refl
  have hq : errors (Dialogue.run host
      (findings (checks dirs store includeInfo ⟨path⟩) none)).1 = [] := errors_findings hc none
  rw [pluginWarnings_eq, Dialogue.run_bind, ← hr, errors_append, hq]
  rcases Dialogue.run host (findings (checks dirs store includeInfo ⟨path⟩) none) with
    ⟨lines, ⟨ws, _ | f⟩, s'⟩
  · exact ⟨rfl, rfl⟩
  · exact ⟨rfl, rfl⟩

theorem eachPlugin_cons (path : String) (paths : List String) :
    eachPlugin dirs store includeInfo (path :: paths) =
      (pluginWarnings dirs store includeInfo path).bind fun ws =>
        (eachPlugin dirs store includeInfo paths).bind fun more => .done (ws ++ more) := rfl

theorem run_eachPlugin (host : Host.Fixed) (dirs : Host.Directories) (store : Store)
    (includeInfo : Bool) (paths : List String) :
    (Dialogue.run host (eachPlugin dirs store includeInfo paths)).2 =
        (paths.flatMap fun path => (reportOn host dirs store includeInfo path).1) ∧
      errors (Dialogue.run host (eachPlugin dirs store includeInfo paths)).1 =
        paths.filterMap fun path => (reportOn host dirs store includeInfo path).2.map
          (.failedPlugin (Package.name ⟨path⟩)) := by
  induction paths with
  | nil => exact ⟨rfl, rfl⟩
  | cons path paths ih =>
    obtain ⟨hw, hf⟩ : (Dialogue.run host (pluginWarnings dirs store includeInfo path)).2 = _ ∧ _ :=
      run_pluginWarnings path
    obtain ⟨hws, hfs⟩ := ih
    simp only [eachPlugin_cons, Dialogue.run_bind, Dialogue.run, errors_append, hw, hf, hws, hfs]
    refine ⟨rfl, ?_⟩
    cases hr : (reportOn host dirs store includeInfo path).2 <;> simp [errors, hr]

theorem warnings_eq : warnings dirs store includeInfo =
    .ask (.findFiles "" isPluginName) fun found : Except Failure (List String) =>
      match found with
      | .error f => .done (.error f)
      | .ok paths => .note (.checking paths.length) fun _ =>
          (eachPlugin dirs store includeInfo paths).bind fun ws => .done (.ok ws) := by
  unfold warnings
  show Dialogue.ask _ _ = _
  congr 1

/-- The warnings of a pass are those of each plugin alone, in the order in which the plugins are
found. Every plugin whose report ends with a failure is reported once as an error, and nothing else
is. -/
theorem warnings_eq_reports (host : Host.Fixed) (dirs : Host.Directories) (store : Store)
    (includeInfo : Bool) {paths : List String}
    (h : host (.findFiles "" isPluginName) = .ok paths) :
    (Dialogue.run host (warnings dirs store includeInfo)).2 =
        .ok (paths.flatMap fun path => (reportOn host dirs store includeInfo path).1) ∧
      errors (Dialogue.run host (warnings dirs store includeInfo)).1 =
        paths.filterMap fun path => (reportOn host dirs store includeInfo path).2.map
          (.failedPlugin (Package.name ⟨path⟩)) := by
  obtain ⟨hws, hfs⟩ := run_eachPlugin host dirs store includeInfo paths
  rw [warnings_eq]
  simp only [Dialogue.run, h, Dialogue.run_bind, hws, List.append_nil]
  exact ⟨trivial, hfs⟩

/-- Of two plugins, the one that cannot be read is given up, and the other keeps its warning. -/
theorem warnings_eq_reports_unreadable :
    let host : Host.Memory := {
      files := [("/game/Data/a.esl", ⟨#[1]⟩), ("/game/Data/b.esp", ⟨#[1]⟩)]
      unreadable := ["/game/Data/a.esl"] }
    let store : Store := {
      exact := [("a.esl", { messages := some [⟨.warn, .plain "lost", none, none⟩] }),
        ("b.esp", { messages := some [⟨.warn, .plain "kept", none, none⟩] })] }
    host.answer (.findFiles "" isPluginName) = .ok ["/game/Data/a.esl", "/game/Data/b.esp"] ∧
      (host.run (warnings host.directories store false)).2 =
        .ok [.ofMessage "b.esp" ⟨.warn, .plain "kept", none, none⟩] ∧
      errors (host.run (warnings host.directories store false)).1 =
        [.failedPlugin "a.esl" (.reported "disk error: /game/Data/a.esl")] := by
  intro host store
  have hfound : host.findFiles "" isPluginName = ["/game/Data/a.esl", "/game/Data/b.esp"] := by
    decide +kernel
  have h : host.answer (.findFiles "" isPluginName) =
      .ok ["/game/Data/a.esl", "/game/Data/b.esp"] := congrArg Except.ok hfound
  obtain ⟨hw, he⟩ := warnings_eq_reports host.answer host.directories store false h
  refine ⟨h, hw.trans ?_, he.trans ?_⟩
  · refine congrArg Except.ok ?_
    decide +kernel
  · decide +kernel

end PluginAudit.Audit
