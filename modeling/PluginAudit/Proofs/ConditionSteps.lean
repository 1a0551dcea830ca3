import PluginAudit.Condition.Evaluation
import PluginAudit.Proofs.FixedAnswers

/-!
# Conditions look at nothing but their context

Every function of a condition, and a condition as a whole, is composed of questions to the host,
debug reports and the facts of the plugin it stands for. One lemma for each function; what follows
for all of them at once is said in `PluginAudit.Proofs.FixedAnswers`.
-/

namespace PluginAudit

open Inspection (Composed)

variable {warns : Bool} {context : Option Package}

namespace Condition

variable (dirs : Host.Directories)

theorem composed_locate (path : String) : Composed warns context (locate dirs path) := by
  unfold locate
  split
  · exact .bind (.ofFault _) fun _ => .bind (.ask _) fun _ => .pure _
  · exact .bind (.ofFault _) fun _ => .bind (.ask _) fun _ => .pure _

theorem composed_matchingPaths (path : String) :
    Composed warns context (matchingPaths dirs path) := by
  unfold matchingPaths
  refine .bind (.ofFault _) fun pattern => ?_
  split
  · exact .bind (.ofFault _) fun _ => .bind (.ask _) fun _ => .pure _
  · exact .bind (.ofFault _) fun _ => .ask _

theorem composed_fileExists (path : String) : Composed warns context (fileExists dirs path) := by
  unfold fileExists
  split
  · exact .bind (composed_matchingPaths dirs path) fun _ => .pure _
  · refine .bind (composed_locate dirs path) fun place => ?_
    split
    · exact .pure _
    · exact .ask _

theorem composed_isReadable (path : String) : Composed warns context (isReadable dirs path) := by
  refine .bind (composed_locate dirs path) fun place => ?_
  split
  · exact .pure _
  · exact .ask _

theorem composed_activeMatches (pattern : NamePattern) (n : Nat) (plugins : List String) :
    Composed warns context (activeMatches pattern n plugins) := by
  induction plugins generalizing n with
  | nil => cases n <;> exact .pure _
  | cons plugin plugins ih =>
    cases n with
    | zero => exact .pure _
    | succ n =>
      refine .bind ?_ fun active => ?_
      · exact .ite (.ask _) (.pure _)
      · split
        · exact ih n
        · exact ih (n + 1)

theorem composed_hasActive (count : Nat) (text : String) :
    Composed warns context (hasActive count text) :=
  .bind (.ofFault _) fun _ => .bind (.ask _) fun _ => composed_activeMatches ..

theorem composed_isActive (plugin : String) : Composed warns context (isActive plugin) := by
  exact .ite (composed_hasActive ..) (.ask _)

theorem composed_checksum {p : Package} (h : context = some p) :
    Composed warns context p.checksum := .bind (.facts p h) fun _ => .pure _

theorem composed_hasChecksum (path : String) (crc : UInt32) :
    Composed warns context (hasChecksum dirs context path crc) := by
  have elsewhere (place : String) : Composed warns context (do
      let there : Bool ← Inspection.ask (.isFile place)
      if there then
        let content : ByteArray ← Inspection.ask (.contentOf place)
        return decide (Crc32.checksum content = crc)
      else return false) := by
    refine .bind (.ask _) fun there => ?_
    split
    · exact .bind (.ask _) fun _ => .pure _
    · exact .pure _
  unfold hasChecksum
  cases context with
  | none =>
    refine .bind (composed_locate dirs path) fun place => ?_
    split
    · exact .pure _
    · exact elsewhere _
  | some p =>
    have ofContext : Composed warns (some p) (do return decide ((← p.checksum) = crc)) :=
      .bind (composed_checksum rfl) fun _ => .pure _
    simp only
    split
    · exact ofContext
    · refine .bind (composed_locate dirs path) fun place => ?_
      split
      · exact .pure _
      · split
        · exact ofContext
        · exact elsewhere _

theorem composed_binaryVersion (path : String) {version? : String → Inspection (Option String)}
    (h : ∀ place, Composed warns context (version? place)) :
    Composed warns context (binaryVersion dirs path version?) := by
  refine .bind (composed_locate dirs path) fun place => ?_
  split
  · exact .pure _
  · refine .bind (.ask _) fun there => ?_
    split
    · exact .bind (h _) fun _ => .pure _
    · exact .pure _

theorem composed_versionOf (path : String) : Composed warns context (versionOf dirs path) := by
  unfold versionOf
  simp only
  split
  · exact composed_binaryVersion dirs path fun _ => .ask _
  · split
    · refine .bind (composed_locate dirs path) fun place => ?_
      split
      · exact .pure _
      · exact .bind (.ask _) fun _ => .pure _
    · exact .throw _

theorem composed_productVersionOf (path : String) :
    Composed warns context (productVersionOf dirs path) := by
  unfold productVersionOf
  split
  · exact composed_binaryVersion dirs path fun _ => .ask _
  · exact .throw _

theorem composed_holds (c : Call) : Composed warns context (c.holds dirs context) := by
  cases c with
  | file path => exact composed_fileExists dirs path
  | readable path => exact composed_isReadable dirs path
  | active plugin => exact composed_isActive plugin
  | many pattern => exact .bind (composed_matchingPaths dirs pattern) fun _ => .pure _
  | manyActive pattern => exact composed_hasActive 2 pattern
  | isMaster plugin => exact .ask _
  | checksum path crc => exact composed_hasChecksum dirs path crc
  | version path given sign => exact .bind (composed_versionOf dirs path) fun _ => .pure _
  | productVersion path given sign =>
    exact .bind (composed_productVersionOf dirs path) fun _ => .pure _

theorem composed_answerCalls (text : List Char) (calls : List FunctionCall) :
    Composed warns context (answerCalls dirs context text calls) := by
  induction calls generalizing text with
  | nil => exact .pure _
  | cons call calls ih =>
    exact .bind (.ofFault _) fun c => .bind (composed_holds dirs c) fun _ =>
      .bind (.report _ (by simp [Log.Event.level])) fun _ => ih _

theorem composed_evaluateBody (condition : String) :
    Composed warns context (evaluateBody dirs context condition) :=
  .bind (composed_answerCalls ..) fun _ => .bind (.ofFault _) fun _ =>
    .bind (.report _ (by simp [Log.Event.level])) fun _ => .pure _

theorem composed_evaluate (condition : String) :
    Composed warns context (evaluate dirs context condition) := by
  refine .bind (.report _ (by simp [Log.Event.level])) fun _ =>
    .tryCatch (composed_evaluateBody ..) fun f => ?_
  split
  · exact .throw _
  · exact .throw _

end Condition

namespace Package

theorem composed_structure? {p : Package} (h : context = some p) :
    Composed warns context p.structure? := by
  refine .bind (.facts p h) fun f => ?_
  split
  · exact .pure _
  · exact .throw _

theorem composed_mark {p : Package} (h : context = some p) (get : Plugin.Structure → Bool)
    (default : Bool) : Composed warns context (p.mark get default) :=
  .bind (composed_structure? h) fun _ => .pure _

theorem composed_isLight {p : Package} (h : context = some p) : Composed warns context p.isLight :=
  .ite (.pure _) (composed_mark h ..)

theorem composed_isValidAsLight {p : Package} (h : context = some p) :
    Composed warns context p.isValidAsLight :=
  composed_mark h ..

end Package

end PluginAudit
