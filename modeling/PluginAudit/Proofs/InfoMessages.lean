import PluginAudit.Proofs.HostFailures
import PluginAudit.Proofs.RefusedItems

/-!
# Messages that only inform

Messages of the types `say` and `info` are left out of a pass unless they are wanted. Leaving them
out is the same as deleting them from the metadata, down to every question and note
(`warnings_withoutInfo`). While the host works, it takes nothing else from the result either: every
check has an answer, and what is missing are the messages whose condition is absent or true
(`Omits`). A host that fails is another matter, since a condition that cannot be answered ends the
report on its plugin, and without the message it is not evaluated.
-/

namespace PluginAudit

/-- A list, what is left of it, and what is left out of it, all in order. -/
inductive Omits {α : Type} : List α → List α → List α → Prop where
  | nil : Omits [] [] []
  | keep (a : α) {all few out : List α} (h : Omits all few out) :
    Omits (a :: all) (a :: few) out
  | drop (a : α) {all few out : List α} (h : Omits all few out) :
    Omits (a :: all) few (a :: out)

namespace Omits

variable {α β : Type} {all few out all' few' out' : List α}

theorem refl (l : List α) : Omits l l [] := by
  induction l with
  | nil => exact .nil
  | cons a l ih => exact .keep a ih

theorem append (h : Omits all few out) (h' : Omits all' few' out') :
    Omits (all ++ all') (few ++ few') (out ++ out') := by
  induction h with
  | nil => exact h'
  | keep a _ ih => exact .keep a ih
  | drop a _ ih => exact .drop a ih

theorem flatMap {f g k : β → List α} {l : List β} (h : ∀ b ∈ l, Omits (f b) (g b) (k b)) :
    Omits (l.flatMap f) (l.flatMap g) (l.flatMap k) := by
  induction l with
  | nil => exact .nil
  | cons b l ih =>
    obtain ⟨hb, hl⟩ := List.forall_mem_cons.1 h
    exact hb.append (ih hl)

theorem sublist (h : Omits all few out) : few.Sublist all := by
  induction h with
  | nil => exact List.Sublist.slnil
  | keep a _ ih => exact ih.cons_cons a
  | drop a _ ih => exact ih.cons a

end Omits

/-! ## Metadata without information -/

namespace Metadata

/-- A record without the messages that only inform. -/
def Record.withoutInfo (r : Record) : Record :=
  { r with messages := r.messages.map (·.filter (·.type.isSerious)) }

/-- A store whose records are changed one by one. -/
def Store.mapRecords (s : Store) (f : Record → Record) : Store :=
  { exact := s.exact.map fun (key, r) => (key, f r)
    patterns := s.patterns.map fun (key, e) => (key, { e with record := f e.record }) }

theorem get?_map {α β : Type} (m : Ordered α) (f : α → β) (key : String) :
    Ordered.get? (m.map fun (k, a) => (k, f a)) key = (m.get? key).map f := by
  induction m with
  | nil => rfl
  | cons entry m ih =>
    obtain ⟨k, a⟩ := entry
    rw [Ordered.get?, Ordered.get?, List.map_cons, List.lookup_cons, List.lookup_cons]
    cases key == k with
    | true => rfl
    | false => exact ih

theorem Store.lookup_mapRecords (s : Store) (f : Record → Record) (plugin : String) :
    (s.mapRecords f).lookup plugin = (s.lookup plugin).map f := by
  unfold lookup
  simp only [mapRecords, get?_map]
  cases s.exact.get? (Text.lowerString plugin) with
  | some r => rfl
  | none => simp [List.find?_map, Function.comp_def]

end Metadata

namespace Audit

open Metadata Inspection

variable {host : Host.Fixed} {dirs : Host.Directories} {store : Store} {includeInfo : Bool}
  {p : Package}

theorem recordChecks_withoutInfo (r : Record) :
    recordChecks dirs false p r = recordChecks dirs true p r.withoutInfo := by
  have hmessages : (r.messages.getD []).filter (isWanted false) =
      (r.withoutInfo.messages.getD []).filter (isWanted true) := by
    have hall : ∀ ms : List Message, ms.filter (isWanted true) = ms := fun ms =>
      List.filter_eq_self.2 fun _ _ => rfl
    rw [hall, Record.withoutInfo]
    cases r.messages <;> rfl
  unfold recordChecks
  rw [hmessages]
  rfl

theorem checks_withoutInfo (p : Package) :
    checks dirs store false p = checks dirs (store.mapRecords Record.withoutInfo) true p := by
  unfold checks
  rw [Store.lookup_mapRecords]
  cases store.lookup p.name with
  | none => rfl
  | some r => exact congrArg (formIdCheck p :: ·) (recordChecks_withoutInfo r)

theorem eachPlugin_withoutInfo (paths : List String) :
    eachPlugin dirs store false paths =
      eachPlugin dirs (store.mapRecords Record.withoutInfo) true paths := by
  induction paths with
  | nil => rfl
  | cons path paths ih =>
    rw [eachPlugin_cons, eachPlugin_cons, pluginWarnings_eq, pluginWarnings_eq, ih,
      checks_withoutInfo]

/-- Leaving out messages that only inform is deleting them from the metadata. -/
theorem warnings_withoutInfo (dirs : Host.Directories) (store : Store) :
    warnings dirs store false = warnings dirs (store.mapRecords Record.withoutInfo) true := by
  rw [warnings_eq, warnings_eq]
  simp only [eachPlugin_withoutInfo]

/-! ## Checks of a host that works -/

/-- The failure of a plugin that is not well formed. -/
def IsMalformed (f : Failure) : Prop := ∃ fault, f = .plugin fault

theorem fails_unlessRefused {P : Failure → Prop} (item : String) {holds : Inspection Bool}
    (h : Fails host Failure.IsRefusal holds) : Fails host P (unlessRefused p item holds) := by
  refine h.tryCatch ?_
  rintro _ ⟨f, rfl⟩
  exact .bind (.report _) fun _ => .pure _

theorem fails_conditionHolds {P : Failure → Prop} (c : Option String) :
    Fails host P (conditionHolds dirs p c) := by
  cases c with
  | none => exact .pure _
  | some c => exact fails_unlessRefused c (Condition.fails_evaluate dirs c)

theorem fails_applies {P : Failure → Prop} (ref : FileRef) (whenPresent : Bool) :
    Fails host P (applies dirs p ref whenPresent) := by
  have hfound : Fails host Failure.IsRefusal
      (do return (← Condition.fileExists dirs ref.name) == whenPresent) :=
    .bind (Condition.fails_fileExists dirs ref.name) fun _ => .pure _
  refine .bind (fails_unlessRefused ref.name hfound) fun found => ?_
  exact .ite (fails_conditionHolds ref.condition) (.pure _)

theorem fails_warnIf {P : Failure → Prop} (w : Warning) {holds : Inspection Bool}
    (h : Fails host P holds) : Fails host P (warnIf w holds) :=
  .bind h fun _ => .pure _

theorem fails_mark (get : Plugin.Structure → Bool) (default : Bool) :
    Fails host IsMalformed (p.mark get default) := by
  have hstructure : Fails host IsMalformed p.structure? := by
    refine .bind (.facts p) fun f => ?_
    split
    · exact .pure _
    · exact .throw ⟨_, rfl⟩
  exact .bind hstructure fun _ => .pure _

theorem fails_formIdCheck {P : Failure → Prop} : Fails host P (formIdCheck p) := by
  have hbad : Fails host IsMalformed (hasBadFormIds p) := by
    refine .bind (.ite (.pure _) (fails_mark _ _)) fun light => ?_
    exact .ite (.bind (fails_mark _ _) fun _ => .pure _) (.pure _)
  refine fails_warnIf _ (hbad.tryCatch ?_)
  rintro _ ⟨f, rfl⟩
  exact .bind (.report _) fun _ => .pure _

/-- While the host works, no check fails. -/
theorem fails_checks {P : Failure → Prop} :
    ∀ c ∈ checks dirs store includeInfo p, Fails host P c := by
  unfold checks
  refine List.forall_mem_cons.2 ⟨fails_formIdCheck, ?_⟩
  cases store.lookup p.name with
  | none => exact fun c hc => absurd hc List.not_mem_nil
  | some r =>
    simp only [recordChecks, List.forall_mem_append, List.forall_mem_map]
    refine ⟨⟨⟨?_, ?_⟩, ?_⟩, ?_⟩
    · exact fun ref _ => fails_warnIf _ (fails_applies ref false)
    · exact fun ref _ => fails_warnIf _ (fails_applies ref true)
    · exact fun m _ => fails_warnIf _ (fails_conditionHolds m.condition)
    · exact fun info _ => fails_warnIf _ (.bind (Condition.fails_checksum p) fun _ => .pure _)

/-! ## Verdicts of a host that works -/

/-- A check that was made and did not fail has a verdict, and so have all after it. -/
theorem verdicts_of_sound {cs : List Check} {its : List Item}
    (h : List.Forall₂ (Checks host p) cs its) (hcs : ∀ c ∈ cs, Fails host (fun _ => False) c)
    {s : Option Facts} (hs : Since host (some p) none s)
    (hsound : Host.Sound host (Dialogue.run host (findings cs s)).1) :
    ∀ it ∈ its, ∃ applies, it.2 = .ok applies := by
  induction h generalizing s with
  | nil => exact fun it hit => absurd hit List.not_mem_nil
  | @cons c it cs its hc _ ih =>
    obtain ⟨hfails, hrest⟩ := List.forall_mem_cons.1 hcs
    obtain ⟨ho, ha⟩ := hc.composed.steady s hs
    rw [findings_cons, Dialogue.run_bind, Host.sound_append] at hsound
    obtain ⟨hfirst, hlater⟩ := hsound
    cases hout : outcome host s c with
    | error f => exact absurd (hfails.failure s hfirst f hout) not_false
    | ok w =>
      have hit : ∃ applies, it.2 = .ok applies := by
        rw [hc.outcome] at ho
        rw [ho] at hout
        cases hv : it.2 with
        | error f =>
          rw [hv] at hout
          cases hout
        | ok applies => exact ⟨applies, rfl⟩
      have hrun : Dialogue.run host (c s) = (transcript host s c, .ok w, after host s c) := by
        rw [← hout]
        rfl
      rw [hrun] at hlater
      simp only [Dialogue.run_bind, Host.sound_append] at hlater
      exact List.forall_mem_cons.2 ⟨hit, ih hrest ha hlater.1⟩

theorem sound_eachPlugin {paths : List String}
    (h : Host.Sound host (Dialogue.run host (eachPlugin dirs store includeInfo paths)).1) :
    ∀ path ∈ paths,
      Host.Sound host (Dialogue.run host (pluginWarnings dirs store includeInfo path)).1 := by
  induction paths with
  | nil => exact fun path hpath => absurd hpath List.not_mem_nil
  | cons path paths ih =>
    rw [eachPlugin_cons, Dialogue.run_bind, Dialogue.run_bind] at h
    obtain ⟨hfirst, hrest⟩ := Host.sound_append.1 h
    exact List.forall_mem_cons.2 ⟨hfirst, ih (Host.sound_append.1 hrest).1⟩

/-- In a pass with a host that works, every item of every plugin has a verdict. -/
theorem verdicts_of_plugin {path : String}
    (h : Host.Sound host (Dialogue.run host (pluginWarnings dirs store includeInfo path)).1) :
    ∀ it ∈ items host dirs store includeInfo ⟨path⟩, ∃ applies, it.2 = .ok applies := by
  rw [pluginWarnings_eq, Dialogue.run_bind] at h
  exact verdicts_of_sound checks_checks fails_checks .refl (Host.sound_append.1 h).1

/-! ## Reports of a host that works -/

/-- The warnings of items that apply. -/
def applying (its : List Item) : List Warning := (its.filter (·.2 = .ok true)).map (·.1)

theorem applying_append (its its' : List Item) :
    applying (its ++ its') = applying its ++ applying its' := by
  rw [applying, List.filter_append, List.map_append]
  rfl

/-- If every item has a verdict, what applies is reported. -/
theorem report_of_verdicts {its : List Item} (h : ∀ it ∈ its, ∃ applies, it.2 = .ok applies) :
    (report its).1 = applying its := by
  induction its with
  | nil => rfl
  | cons it its ih =>
    obtain ⟨⟨applies, hit⟩, hrest⟩ := List.forall_mem_cons.1 h
    obtain ⟨w, verdict⟩ := it
    obtain rfl : verdict = .ok applies := hit
    rw [report, ih hrest, applying, applying]
    cases applies <;> simp

/-- Of messages that only inform, the warnings of those whose condition is absent or true. -/
def informing (host : Host.Fixed) (dirs : Host.Directories) (p : Package)
    (messages : List Message) : List Warning :=
  (messages.filter fun m =>
    !m.type.isSerious && conditionVerdict host dirs p m.condition = .ok true).map
      (.ofMessage p.name)

/-- The warnings of a plugin that only inform. -/
def infoWarnings (host : Host.Fixed) (dirs : Host.Directories) (store : Store) (path : String) :
    List Warning :=
  let p : Package := ⟨path⟩
  informing host dirs p (((store.lookup p.name).bind (·.messages)).getD [])

/-- The items of messages. -/
def messageItems (host : Host.Fixed) (dirs : Host.Directories) (p : Package)
    (messages : List Message) : List Item :=
  messages.map fun m => (.ofMessage p.name m, conditionVerdict host dirs p m.condition)

theorem omits_messageItems (messages : List Message) :
    Omits (applying (messageItems host dirs p (messages.filter (isWanted true))))
      (applying (messageItems host dirs p (messages.filter (isWanted false))))
      (informing host dirs p messages) := by
  induction messages with
  | nil => exact .nil
  | cons m messages ih =>
    have hwanted : isWanted true m = true := rfl
    have hserious : isWanted false m = m.type.isSerious := rfl
    by_cases happlies : conditionVerdict host dirs p m.condition = .ok true
    · cases hs : m.type.isSerious with
      | true =>
        simpa [messageItems, applying, informing, hwanted, hserious, hs, happlies] using ih.keep _
      | false =>
        simpa [messageItems, applying, informing, hwanted, hserious, hs, happlies] using ih.drop _
    · cases hs : m.type.isSerious with
      | true => simpa [messageItems, applying, informing, hwanted, hserious, hs, happlies] using ih
      | false => simpa [messageItems, applying, informing, hwanted, hserious, hs, happlies] using ih

theorem recordItems_eq (includeInfo : Bool) (r : Record) :
    recordItems host dirs includeInfo p r =
      (r.requirements.getD []).map
          (fun ref => (.ofMissing p.name ref, fileVerdict host dirs p ref false)) ++
        (r.incompatibilities.getD []).map
          (fun ref => (.ofIncompatible p.name ref, fileVerdict host dirs p ref true)) ++
        messageItems host dirs p ((r.messages.getD []).filter (isWanted includeInfo)) ++
        (r.dirtyInfo.getD []).map (fun info => (.ofDirty p.name info, dirtyVerdict host p info)) :=
  rfl

/-- Of the items of a plugin, only messages that inform are left out. -/
theorem omits_items (path : String) :
    Omits (applying (items host dirs store true ⟨path⟩))
      (applying (items host dirs store false ⟨path⟩)) (infoWarnings host dirs store path) := by
  simp only [items, infoWarnings]
  cases store.lookup (Package.name ⟨path⟩) with
  | none => exact .refl _
  | some r =>
    have hrecord : Omits (applying (recordItems host dirs true ⟨path⟩ r))
        (applying (recordItems host dirs false ⟨path⟩ r))
        (informing host dirs ⟨path⟩ (r.messages.getD [])) := by
      have hmessages := @omits_messageItems host dirs ⟨path⟩ (r.messages.getD [])
      have hrest := hmessages.append (.refl (applying ((r.dirtyInfo.getD []).map fun info =>
        (.ofDirty (Package.name ⟨path⟩) info, dirtyVerdict host ⟨path⟩ info))))
      rw [List.append_nil] at hrest
      simp only [recordItems_eq, applying_append, List.append_assoc]
      exact (Omits.refl _).append ((Omits.refl _).append hrest)
    have hcons := (Omits.refl (applying [(.ofFormIds (Package.name ⟨path⟩),
      formIdVerdict host ⟨path⟩)])).append hrecord
    rw [← applying_append, ← applying_append] at hcons
    exact hcons

theorem items_sublist (path : String) :
    (items host dirs store false ⟨path⟩).Sublist (items host dirs store true ⟨path⟩) := by
  unfold items
  refine List.Sublist.cons_cons _ ?_
  cases store.lookup (Package.name ⟨path⟩) with
  | none => exact List.Sublist.slnil
  | some r =>
    have hall : (r.messages.getD []).filter (isWanted true) = r.messages.getD [] :=
      List.filter_eq_self.2 fun _ _ => rfl
    simp only [recordItems, hall]
    refine ((List.Sublist.refl _).append ?_).append (List.Sublist.refl _)
    exact List.filter_sublist.map _

/-! ## Passes -/

/-- Without messages that only inform, a pass is the same as if they were not in the metadata. If
the host works as far as it is asked in the full pass, what is left out are those of these messages
whose condition is absent or true, and everything else stays in its order. -/
theorem warnings_infoMessages (host : Host.Fixed) (dirs : Host.Directories) (store : Store) :
    warnings dirs store false = warnings dirs (store.mapRecords Record.withoutInfo) true ∧
    (Host.Sound host (Dialogue.run host (warnings dirs store true)).1 →
      ∃ all few, (Dialogue.run host (warnings dirs store true)).2 = .ok all ∧
        (Dialogue.run host (warnings dirs store false)).2 = .ok few ∧ few.Sublist all ∧
        Omits all few ((plugins host).flatMap (infoWarnings host dirs store))) := by
  refine ⟨warnings_withoutInfo dirs store, fun hsound => ?_⟩
  simp only [warnings_eq, Dialogue.run] at hsound
  obtain ⟨hfind, hrest⟩ := List.forall_mem_cons.1 hsound
  obtain ⟨paths, hfound⟩ : ∃ paths : List String,
      host (.findFiles "" isPluginName) = .ok paths := by
    have hanswer : Host.isSound (.findFiles "" isPluginName)
        (host (.findFiles "" isPluginName)) = true := hfind
    cases hfound : host (.findFiles "" isPluginName) with
    | ok paths => exact ⟨paths, rfl⟩
    | error f =>
      rw [hfound] at hanswer
      cases hanswer
  have hplugins : plugins host = paths := by rw [plugins, hfound]
  have hverdicts : ∀ path ∈ paths, ∀ it ∈ items host dirs store true ⟨path⟩,
      ∃ applies, it.2 = .ok applies := by
    intro path hpath
    rw [hfound] at hrest
    simp only [Dialogue.run, Dialogue.run_bind] at hrest
    have heach := (Host.sound_append.1 (List.forall_mem_cons.1 hrest).2).1
    exact verdicts_of_plugin (sound_eachPlugin heach path hpath)
  have hreport : ∀ path ∈ paths,
      (reportOn host dirs store true path).1 = applying (items host dirs store true ⟨path⟩) ∧
      (reportOn host dirs store false path).1 =
        applying (items host dirs store false ⟨path⟩) := by
    intro path hpath
    refine ⟨report_of_verdicts (hverdicts path hpath), report_of_verdicts fun it hit => ?_⟩
    exact hverdicts path hpath it ((items_sublist path).subset hit)
  have homits : Omits (paths.flatMap fun path => (reportOn host dirs store true path).1)
      (paths.flatMap fun path => (reportOn host dirs store false path).1)
      (paths.flatMap (infoWarnings host dirs store)) := by
    refine Omits.flatMap fun path hpath => ?_
    rw [(hreport path hpath).1, (hreport path hpath).2]
    exact omits_items path
  have hrun : ∀ includeInfo, (Dialogue.run host (warnings dirs store includeInfo)).2 =
      .ok (paths.flatMap fun path => (reportOn host dirs store includeInfo path).1) := by
    intro includeInfo
    obtain ⟨hws, -⟩ := run_eachPlugin host dirs store includeInfo paths
    rw [warnings_eq]
    simp only [Dialogue.run, hfound, Dialogue.run_bind, hws]
  rw [hplugins]
  exact ⟨_, _, hrun true, hrun false, homits.sublist, homits⟩

/-- A plugin that is not well formed, which its host says, with messages without a condition that
inform and warn, and one that informs and whose condition is refused. -/
theorem warnings_infoMessages_malformed :
    let host : Host.Memory := {
      files := [("/game/Data/a.esp", ⟨#[1]⟩)]
      structures := [("a.esp", .error (.tooSmall "a.esp"))] }
    let shown : Message := ⟨.info, .plain "shown", none, none⟩
    let refused : Message := ⟨.say, .plain "refused", none, some "file(\"A.esp)"⟩
    let kept : Message := ⟨.warn, .plain "kept", none, none⟩
    let store : Store := { exact := [("a.esp", { messages := some [shown, refused, kept] })] }
    let full := host.run (warnings host.directories store true)
    let few := host.run (warnings host.directories store false)
    Host.Sound host.answer full.1 ∧
      full.2 = .ok [.ofMessage "a.esp" shown, .ofMessage "a.esp" kept] ∧
      few.2 = .ok [.ofMessage "a.esp" kept] ∧
      ∃ all few', full.2 = .ok all ∧ few.2 = .ok few' ∧ few'.Sublist all ∧
        Omits all few' ((plugins host.answer).flatMap
          (infoWarnings host.answer host.directories store)) := by
  intro host shown refused kept store full few
  have hsound : Host.Sound host.answer full.1 := by decide +kernel
  have hfull : full.2 = .ok [.ofMessage "a.esp" shown, .ofMessage "a.esp" kept] := by
    decide +kernel
  have hfew : few.2 = .ok [.ofMessage "a.esp" kept] := by decide +kernel
  obtain ⟨-, homits⟩ := warnings_infoMessages host.answer host.directories store
  exact ⟨hsound, hfull, hfew, homits hsound⟩

end Audit

end PluginAudit
