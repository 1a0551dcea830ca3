import PluginAudit.Proofs.PackageQuestions
import PluginAudit.Proofs.WarningPass

/-!
# One reading for each plugin

While the warnings about a plugin are looked for, its file is read once: for the check of its
identifiers, which comes first. What is found out then answers the dirty states and every condition
that asks for the checksum of the plugin, however it names it; no other question is about the
content of that file (`Spares`, with a rule for each way to build an inspection and a lemma for each
function of a condition). So a pass reads every plugin once on its own behalf
(`warnings_read_once`); other plugins may read it as well.
-/

namespace PluginAudit

namespace Inspection

variable {α β : Type}

/-- Once the facts of a plugin are known, an inspection leaves its file alone, and they stay
known. -/
structure Spares (host : Host.Fixed) (p : Package) (i : Inspection α) : Prop where
  unread : ∀ f, p.path ∉ reads (transcript host (some f) i)
  known : ∀ f, after host (some f) i = some f

namespace Spares

variable {host : Host.Fixed} {p : Package}

theorem pure (a : α) : Spares host p (pure a) := ⟨fun _ => List.not_mem_nil, fun _ => rfl⟩

theorem throw (f : Failure) : Spares host p (throw f : Inspection α) :=
  ⟨fun _ => List.not_mem_nil, fun _ => rfl⟩

theorem report (e : Log.Event) : Spares host p (report e) :=
  ⟨fun _ => List.not_mem_nil, fun _ => rfl⟩

/-- Any question may be asked but the one for the content of the file. -/
theorem ask {q : Host.Query} (hq : p.path ∉ reads [.asked q]) : Spares host p (ask q) :=
  ⟨fun _ => hq, fun _ => rfl⟩

theorem facts : Spares host p p.facts := ⟨fun _ => List.not_mem_nil, fun _ => rfl⟩

theorem ofFault (r : Except Condition.Fault α) : Spares host p (ofFault r) := by
  cases r with
  | ok a => exact .pure a
  | error f => exact .throw _

theorem bind {i : Inspection α} {f : α → Inspection β} (hi : Spares host p i)
    (hf : ∀ a, Spares host p (f a)) : Spares host p (i >>= f) := by
  refine ⟨fun known => ?_, fun known => ?_⟩
  · rw [transcript_bind, reads_append, List.mem_append, hi.known]
    cases outcome host (some known) i with
    | ok a => exact not_or.2 ⟨hi.unread known, (hf a).unread known⟩
    | error e => exact not_or.2 ⟨hi.unread known, List.not_mem_nil⟩
  · rw [after_bind, hi.known]
    cases outcome host (some known) i with
    | ok a => exact (hf a).known known
    | error e => rfl

theorem tryCatch {i : Inspection α} {h : Failure → Inspection α} (hi : Spares host p i)
    (hh : ∀ e, Spares host p (h e)) : Spares host p (tryCatch i h) := by
  refine ⟨fun known => ?_, fun known => ?_⟩
  · rw [transcript_tryCatch, reads_append, List.mem_append, hi.known]
    cases outcome host (some known) i with
    | ok a => exact not_or.2 ⟨hi.unread known, List.not_mem_nil⟩
    | error e => exact not_or.2 ⟨hi.unread known, (hh e).unread known⟩
  · rw [after_tryCatch, hi.known]
    cases outcome host (some known) i with
    | ok a => rfl
    | error e => exact (hh e).known known

theorem ite {q : Prop} [Decidable q] {i j : Inspection α} (hi : q → Spares host p i)
    (hj : ¬ q → Spares host p j) : Spares host p (if q then i else j) := by
  split
  · exact hi ‹_›
  · exact hj ‹_›

end Spares

/-! ## Reading at first -/

/-- Among all that an inspection reads, the file of a plugin comes first and does not come again.
After that its facts are known, unless the inspection fails, and not because the plugin is not well
formed. -/
structure ReadsFirst (host : Host.Fixed) (p : Package) (i : Inspection α) : Prop where
  first : ∃ others, reads (transcript host none i) = p.path :: others ∧ p.path ∉ others
  known : (∃ f, after host none i = some f) ∨
    ∃ e, outcome host none i = .error e ∧ ∀ fault, e ≠ .plugin fault

namespace ReadsFirst

variable {host : Host.Fixed} {p : Package}

/-- Where the file can be read, its facts become known, unless the host fails on its structure. -/
theorem facts {content : ByteArray} (h : host (.contentOf p.path) = .ok content) :
    ReadsFirst host p p.facts := by
  refine ⟨⟨[], Package.reads_facts_none, List.not_mem_nil⟩, ?_⟩
  rw [after_facts_none, outcome_facts_none, Package.outcome_readFacts, h]
  show (∃ f, (Except.map _ (p.structureFound host content)).toOption = some f) ∨
    ∃ e, Except.map _ (p.structureFound host content) = .error e ∧ _
  rw [Package.structureFound]
  split
  · exact .inl ⟨_, rfl⟩
  · split
    · exact .inl ⟨_, rfl⟩
    · exact .inl ⟨_, rfl⟩
    · next e hplugin _ => exact .inr ⟨e, rfl, fun fault he => hplugin fault (he ▸ rfl)⟩

/-- What follows leaves the file alone. -/
theorem bind {i : Inspection α} {f : α → Inspection β} (hi : ReadsFirst host p i)
    (hf : ∀ a, Spares host p (f a)) : ReadsFirst host p (i >>= f) := by
  obtain ⟨others, hreads, hothers⟩ := hi.first
  constructor
  · rw [transcript_bind, reads_append, hreads]
    cases hi' : outcome host none i with
    | error e => exact ⟨others ++ [], rfl, by rwa [List.append_nil]⟩
    | ok a =>
      obtain ⟨known, hknown⟩ : ∃ f, after host none i = some f :=
        hi.known.resolve_right fun ⟨e, he, _⟩ => nomatch hi'.symm.trans he
      rw [hknown]
      exact ⟨_, rfl, fun h =>
        (List.mem_append.1 h).elim hothers ((hf a).unread known)⟩
  · rw [after_bind, outcome_bind]
    cases hi' : outcome host none i with
    | error e =>
      refine hi.known.imp_right fun ⟨e', he, hplugin⟩ => ?_
      cases hi'.symm.trans he
      exact ⟨e, rfl, hplugin⟩
    | ok a =>
      obtain ⟨known, hknown⟩ : ∃ f, after host none i = some f :=
        hi.known.resolve_right fun ⟨e, he, _⟩ => nomatch hi'.symm.trans he
      rw [hknown]
      exact .inl ⟨known, (hf a).known known⟩

/-- A handler leaves the file alone, and passes on every failure but that the plugin is not well
formed. -/
theorem tryCatch {i : Inspection α} {h : Failure → Inspection α} (hi : ReadsFirst host p i)
    (hh : ∀ e, Spares host p (h e)) (hthrow : ∀ e, (∀ fault, e ≠ .plugin fault) → h e = throw e) :
    ReadsFirst host p (tryCatch i h) := by
  obtain ⟨others, hreads, hothers⟩ := hi.first
  constructor
  · rw [transcript_tryCatch, reads_append, hreads]
    cases hi' : outcome host none i with
    | ok a => exact ⟨others ++ [], rfl, by rwa [List.append_nil]⟩
    | error e =>
      rcases hi.known with ⟨known, hknown⟩ | ⟨e', he, hplugin⟩
      · rw [hknown]
        exact ⟨_, rfl, fun hm => (List.mem_append.1 hm).elim hothers ((hh e).unread known)⟩
      · cases hi'.symm.trans he
        simp only [hthrow e hplugin]
        exact ⟨others ++ [], rfl, by rwa [List.append_nil]⟩
  · rw [after_tryCatch, outcome_tryCatch]
    cases hi' : outcome host none i with
    | ok a => exact hi.known.imp_right fun ⟨e, he, _⟩ => nomatch hi'.symm.trans he
    | error e =>
      rcases hi.known with ⟨known, hknown⟩ | ⟨e', he, hplugin⟩
      · rw [hknown]
        exact .inl ⟨known, (hh e).known known⟩
      · cases hi'.symm.trans he
        simp only [hthrow e hplugin]
        exact .inr ⟨e, rfl, hplugin⟩

end ReadsFirst

end Inspection

open Inspection (Spares)

variable {host : Host.Fixed} {p : Package}

/-! ## Conditions -/

namespace Condition

variable (dirs : Host.Directories)

theorem spares_locate (path : String) : Spares host p (locate dirs path) := by
  unfold locate
  split
  · exact .bind (.ofFault _) fun _ => .bind (.ask List.not_mem_nil) fun _ => .pure _
  · exact .bind (.ofFault _) fun _ => .bind (.ask List.not_mem_nil) fun _ => .pure _

theorem spares_matchingPaths (path : String) : Spares host p (matchingPaths dirs path) := by
  refine .bind (.ofFault _) fun pattern => ?_
  split
  · exact .bind (.ofFault _) fun _ => .bind (.ask List.not_mem_nil) fun _ => .pure _
  · exact .bind (.ofFault _) fun _ => .ask List.not_mem_nil

theorem spares_fileExists (path : String) : Spares host p (fileExists dirs path) := by
  refine .ite (fun _ => .bind (spares_matchingPaths dirs path) fun _ => .pure _) fun _ => ?_
  refine .bind (spares_locate dirs path) fun place => ?_
  split
  · exact .pure _
  · exact .ask List.not_mem_nil

theorem spares_isReadable (path : String) : Spares host p (isReadable dirs path) := by
  refine .bind (spares_locate dirs path) fun place => ?_
  split
  · exact .pure _
  · exact .ask List.not_mem_nil

theorem spares_activeMatches (pattern : NamePattern) (n : Nat) (plugins : List String) :
    Spares host p (activeMatches pattern n plugins) := by
  induction plugins generalizing n with
  | nil => cases n <;> exact .pure _
  | cons plugin plugins ih =>
    cases n with
    | zero => exact .pure _
    | succ n =>
      refine .bind (.ite (fun _ => .ask List.not_mem_nil) fun _ => .pure _) fun active => ?_
      exact .ite (fun _ => ih n) fun _ => ih (n + 1)

theorem spares_hasActive (count : Nat) (text : String) : Spares host p (hasActive count text) :=
  .bind (.ofFault _) fun _ => .bind (.ask List.not_mem_nil) fun _ => spares_activeMatches ..

theorem spares_isActive (plugin : String) : Spares host p (isActive plugin) :=
  .ite (fun _ => spares_hasActive ..) fun _ => .ask List.not_mem_nil

theorem spares_checksum : Spares host p p.checksum := .bind .facts fun _ => .pure _

/-- A checksum of the context comes from its facts, under whatever path it is asked for; any other
file may be read. -/
theorem spares_hasChecksum (path : String) (crc : UInt32) :
    Spares host p (hasChecksum dirs (some p) path crc) := by
  have ofContext : Spares host p (do return decide ((← p.checksum) = crc)) :=
    .bind spares_checksum fun _ => .pure _
  unfold hasChecksum
  refine .ite (fun _ => ofContext) fun _ => .bind (spares_locate dirs path) fun place? => ?_
  cases place? with
  | none => exact .pure _
  | some place =>
    refine .ite (fun _ => ofContext) fun hplace => ?_
    refine .bind (.ask List.not_mem_nil) fun there => ?_
    refine .ite (fun _ => .bind (.ask ?_) fun _ => .pure _) fun _ => .pure _
    show p.path ∉ [place]
    rw [List.mem_singleton]
    exact Ne.symm hplace

theorem spares_binaryVersion (path : String) {version? : String → Inspection (Option String)}
    (h : ∀ place, Spares host p (version? place)) :
    Spares host p (binaryVersion dirs path version?) := by
  refine .bind (spares_locate dirs path) fun place => ?_
  split
  · exact .pure _
  · refine .bind (.ask List.not_mem_nil) fun there => ?_
    exact .ite (fun _ => .bind (h _) fun _ => .pure _) fun _ => .pure _

theorem spares_versionOf (path : String) : Spares host p (versionOf dirs path) := by
  unfold versionOf
  dsimp only
  refine .ite (fun _ => spares_binaryVersion dirs path fun _ => .ask List.not_mem_nil) fun _ => ?_
  refine .ite (fun _ => .bind (spares_locate dirs path) fun place => ?_) fun _ => .throw _
  split
  · exact .pure _
  · exact .bind (.ask List.not_mem_nil) fun _ => .pure _

theorem spares_productVersionOf (path : String) : Spares host p (productVersionOf dirs path) :=
  .ite (fun _ => spares_binaryVersion dirs path fun _ => .ask List.not_mem_nil) fun _ => .throw _

theorem spares_holds (c : Call) : Spares host p (c.holds dirs (some p)) := by
  cases c with
  | file path => exact spares_fileExists dirs path
  | readable path => exact spares_isReadable dirs path
  | active plugin => exact spares_isActive plugin
  | many pattern => exact .bind (spares_matchingPaths dirs pattern) fun _ => .pure _
  | manyActive pattern => exact spares_hasActive 2 pattern
  | isMaster plugin => exact .ask List.not_mem_nil
  | checksum path crc => exact spares_hasChecksum dirs path crc
  | version path given sign => exact .bind (spares_versionOf dirs path) fun _ => .pure _
  | productVersion path given sign =>
    exact .bind (spares_productVersionOf dirs path) fun _ => .pure _

theorem spares_answerCalls (text : List Char) (calls : List FunctionCall) :
    Spares host p (answerCalls dirs (some p) text calls) := by
  induction calls generalizing text with
  | nil => exact .pure _
  | cons call calls ih =>
    exact .bind (.ofFault _) fun c => .bind (spares_holds dirs c) fun _ =>
      .bind (.report _) fun _ => ih _

theorem spares_evaluate (condition : String) :
    Spares host p (evaluate dirs (some p) condition) := by
  have hbody : Spares host p (evaluateBody dirs (some p) condition) :=
    .bind (spares_answerCalls ..) fun _ => .bind (.ofFault _) fun _ =>
      .bind (.report _) fun _ => .pure _
  refine .bind (.report _) fun _ => .tryCatch hbody fun f => ?_
  split
  · exact .throw _
  · exact .throw _

end Condition

/-! ## Checks -/

namespace Audit

open Inspection Metadata

variable (dirs : Host.Directories) (store : Store) (includeInfo : Bool)

theorem spares_warnIf (w : Warning) {holds : Inspection Bool} (h : Spares host p holds) :
    Spares host p (warnIf w holds) :=
  .bind h fun _ => .pure _

theorem spares_unlessRefused (item : String) {holds : Inspection Bool} (h : Spares host p holds) :
    Spares host p (unlessRefused p item holds) := by
  refine .tryCatch h fun f => ?_
  split
  · exact .bind (.report _) fun _ => .pure _
  · exact .throw _

theorem spares_conditionHolds (condition : Option String) :
    Spares host p (conditionHolds dirs p condition) := by
  cases condition with
  | none => exact .pure _
  | some c => exact spares_unlessRefused c (Condition.spares_evaluate dirs c)

theorem spares_applies (ref : FileRef) (whenPresent : Bool) :
    Spares host p (applies dirs p ref whenPresent) := by
  refine .bind (spares_unlessRefused _ ?_) fun found => ?_
  · exact .bind (Condition.spares_fileExists dirs ref.name) fun _ => .pure _
  · exact .ite (fun _ => spares_conditionHolds dirs ref.condition) fun _ => .pure _

theorem spares_recordChecks (r : Record) :
    ∀ c ∈ recordChecks dirs includeInfo p r, Spares host p c := by
  simp only [recordChecks, List.forall_mem_append, List.forall_mem_map]
  refine ⟨⟨⟨fun ref _ => ?_, fun ref _ => ?_⟩, fun m _ => ?_⟩, fun info _ => ?_⟩
  · exact spares_warnIf _ (spares_applies dirs ref false)
  · exact spares_warnIf _ (spares_applies dirs ref true)
  · exact spares_warnIf _ (spares_conditionHolds dirs m.condition)
  · exact spares_warnIf _ (.bind Condition.spares_checksum fun _ => .pure _)

theorem spares_mark (get : Plugin.Structure → Bool) (default : Bool) :
    Spares host p (p.mark get default) := by
  refine .bind (.bind .facts fun f => ?_) fun _ => .pure _
  split
  · exact .pure _
  · exact .throw _

/-- After the first one, the checks of a plugin leave its file alone. -/
theorem spares_checks_tail :
    ∀ c ∈ (checks dirs store includeInfo p).tail, Spares host p c := by
  rw [checks, List.tail_cons]
  split
  · exact fun c hc => absurd hc List.not_mem_nil
  · exact spares_recordChecks dirs includeInfo _

/-! ## The first check -/

section FirstCheck

variable {content : ByteArray} (h : host (.contentOf p.path) = .ok content)
include h

theorem readsFirst_structure? : ReadsFirst host p p.structure? := by
  refine .bind (.facts h) fun f => ?_
  split
  · exact .pure _
  · exact .throw _

theorem readsFirst_mark (get : Plugin.Structure → Bool) (default : Bool) :
    ReadsFirst host p (p.mark get default) :=
  .bind (readsFirst_structure? h) fun _ => .pure _

/-- Whether or not the name makes a plugin light, its structure is looked at. -/
theorem readsFirst_hasBadFormIds : ReadsFirst host p (hasBadFormIds p) := by
  unfold hasBadFormIds Package.isLight
  split
  · rw [pure_bind]
    exact .bind (readsFirst_mark h ..) fun _ => .pure _
  · refine .bind (readsFirst_mark h ..) fun light => ?_
    exact .ite (fun _ => .bind (spares_mark ..) fun _ => .pure _) fun _ => .pure _

theorem readsFirst_formIdCheck : ReadsFirst host p (formIdCheck p) := by
  refine .bind (.tryCatch (readsFirst_hasBadFormIds h) (fun f => ?_) fun f hf => ?_) fun _ =>
    .pure _
  · split
    · exact .bind (.report _) fun _ => .pure _
    · exact .throw _
  · split
    · exact absurd rfl (hf _)
    · rfl

end FirstCheck

/-! ## A whole pass -/

theorem run_findings_cons_lines (c : Check) (cs : List Check) (s : Option Facts) :
    (Dialogue.run host (findings (c :: cs) s)).1 =
      transcript host s c ++ match outcome host s c with
        | .error _ => []
        | .ok _ => (Dialogue.run host (findings cs (after host s c))).1 := by
  rw [findings_cons, Dialogue.run_bind]
  unfold outcome after transcript hold
  rcases Dialogue.run host (c s) with ⟨lines, f | w, s'⟩
  · rfl
  · simp only [Dialogue.run_bind, Dialogue.run, List.append_nil]

/-- Checks that leave the file alone do so one after the other. -/
theorem unread_findings {cs : List Check} (h : ∀ c ∈ cs, Spares host p c) (f : Facts) :
    p.path ∉ reads (Dialogue.run host (findings cs (some f))).1 := by
  induction cs with
  | nil => exact List.not_mem_nil
  | cons c cs ih =>
    obtain ⟨hc, hcs⟩ := List.forall_mem_cons.1 h
    rw [run_findings_cons_lines, hc.known, reads_append, List.mem_append]
    cases outcome host (some f) c with
    | error e => exact not_or.2 ⟨hc.unread f, List.not_mem_nil⟩
    | ok w => exact not_or.2 ⟨hc.unread f, ih hcs⟩

theorem reads_findings {content : ByteArray} (h : host (.contentOf p.path) = .ok content) :
    ∃ others, reads (Dialogue.run host (findings (checks dirs store includeInfo p) none)).1 =
      p.path :: others ∧ p.path ∉ others := by
  obtain ⟨cs, hcs, hspares⟩ : ∃ cs, checks dirs store includeInfo p = formIdCheck p :: cs ∧
      ∀ c ∈ cs, Spares host p c := ⟨_, rfl, spares_checks_tail dirs store includeInfo⟩
  have hfirst := readsFirst_formIdCheck h
  obtain ⟨others, hreads, hothers⟩ := hfirst.first
  rw [hcs, run_findings_cons_lines, reads_append, hreads]
  cases hc : outcome host none (formIdCheck p) with
  | error e => exact ⟨others ++ [], rfl, by rwa [List.append_nil]⟩
  | ok w =>
    obtain ⟨f, hf⟩ : ∃ f, after host none (formIdCheck p) = some f :=
      hfirst.known.resolve_right fun ⟨e, he, _⟩ => nomatch hc.symm.trans he
    rw [hf]
    exact ⟨_, rfl, fun hm => (List.mem_append.1 hm).elim hothers (unread_findings hspares f)⟩

/-- The warnings about a plugin cost one reading of its file, whatever its metadata asks. -/
theorem count_reads_pluginWarnings {path : String} {content : ByteArray}
    (h : host (.contentOf path) = .ok content) :
    (reads (Dialogue.run host (pluginWarnings dirs store includeInfo path)).1).count path = 1 := by
  obtain ⟨others, hreads, hothers⟩ :=
    reads_findings dirs store includeInfo (p := ⟨path⟩) h
  have hnote : reads (Dialogue.run host (pluginWarnings dirs store includeInfo path)).1 =
      reads (Dialogue.run host (findings (checks dirs store includeInfo ⟨path⟩) none)).1 := by
    rw [pluginWarnings_eq, Dialogue.run_bind, reads_append]
    rcases (Dialogue.run host (findings (checks dirs store includeInfo ⟨path⟩) none)).2 with
      ⟨⟨ws, _ | f⟩, s⟩
    · exact List.append_nil _
    · exact List.append_nil _
  rw [hnote, hreads, List.count_cons_self, List.count_eq_zero_of_not_mem hothers]

theorem run_eachPlugin_lines (paths : List String) :
    (Dialogue.run host (eachPlugin dirs store includeInfo paths)).1 =
      paths.flatMap fun path =>
        (Dialogue.run host (pluginWarnings dirs store includeInfo path)).1 := by
  induction paths with
  | nil => rfl
  | cons path paths ih =>
    simp only [eachPlugin_cons, Dialogue.run_bind, Dialogue.run, List.append_nil, ih,
      List.flatMap_cons]

/-- A pass looks for the plugins, and then at one plugin after the other. While it looks at a
plugin, the file of that plugin is read exactly once. -/
theorem warnings_read_once (host : Host.Fixed) (dirs : Host.Directories) (store : Store)
    (includeInfo : Bool) {paths : List String}
    (hfound : host (.findFiles "" isPluginName) = .ok paths)
    (hread : ∀ path ∈ paths, ∃ content, host (.contentOf path) = .ok content) :
    (Dialogue.run host (warnings dirs store includeInfo)).1 =
        .asked (.findFiles "" isPluginName) :: .noted (.checking paths.length) ::
          paths.flatMap (fun path =>
            (Dialogue.run host (pluginWarnings dirs store includeInfo path)).1) ∧
      ∀ path ∈ paths,
        (reads (Dialogue.run host (pluginWarnings dirs store includeInfo path)).1).count path =
          1 := by
  constructor
  · rw [warnings_eq]
    simp only [Dialogue.run, hfound, Dialogue.run_bind, List.append_nil, run_eachPlugin_lines]
  · intro path hpath
    obtain ⟨content, hcontent⟩ := hread path hpath
    exact count_reads_pluginWarnings dirs store includeInfo hcontent

/-- However the metadata of `A.esp` name that plugin, its file is read once. -/
theorem warnings_read_once_spellings :
    let host : Host.Memory := {
      files := [("/game/Data/A.esp", "a".toUTF8), ("/game/Data/B.esp", "b".toUTF8)] }
    let store : Store := {
      exact := [("a.esp", {
        messages := some [
          ⟨.say, .plain "", none, some "checksum(\"a.ESP\", 1) or checksum(\"x/../A.esp\", 2)"⟩,
          ⟨.say, .plain "", none, some "checksum(\"../Data/A.esp\", 3)"⟩,
          ⟨.say, .plain "", none, some "checksum(\"B.esp\", 4)"⟩]
        dirtyInfo := some [{ crc := 5 }, { crc := 6 }] })] }
    let paths := ["/game/Data/A.esp", "/game/Data/B.esp"]
    let lines (path : String) :=
      (Dialogue.run host.answer (pluginWarnings host.directories store true path)).1
    host.answer (.findFiles "" isPluginName) = .ok paths ∧
      (∀ path ∈ paths, ∃ content, host.answer (.contentOf path) = .ok content) ∧
      (Dialogue.run host.answer (warnings host.directories store true)).1 =
        .asked (.findFiles "" isPluginName) :: .noted (.checking 2) :: paths.flatMap lines ∧
      ∀ path ∈ paths, (reads (lines path)).count path = 1 := by
  intro host store paths lines
  have hpaths : host.findFiles "" isPluginName = paths := by decide +kernel
  have hfound : host.answer (.findFiles "" isPluginName) = .ok paths := congrArg Except.ok hpaths
  have hread : ∀ path ∈ paths, ∃ content, host.answer (.contentOf path) = .ok content := by
    have ha : host.contentOf "/game/Data/A.esp" = .ok "a".toUTF8 := by decide +kernel
    have hb : host.contentOf "/game/Data/B.esp" = .ok "b".toUTF8 := by decide +kernel
    intro path hpath
    rcases List.mem_pair.1 hpath with rfl | rfl
    · exact ⟨_, ha⟩
    · exact ⟨_, hb⟩
  exact ⟨hfound, hread, warnings_read_once host.answer host.directories store true hfound hread⟩

end Audit

end PluginAudit
