import PluginAudit.Condition.Evaluation
import PluginAudit.Proofs.FixedAnswers

/-!
# What fails although the host works

A host that works answers every question, except that it refuses the structure of a plugin that is
not well formed. As long as it does, a condition fails only because it is refused, and the checksum
of a plugin not at all. `Fails` says in which ways an inspection may fail, with a rule for each way
to build one; then there is one lemma for each function of a condition.

Only the questions that are asked count. Hardly any host could answer all that might be asked: the
content of a file that is absent, say.
-/

namespace PluginAudit

namespace Host

/-- Whether a question is about the structure of a plugin. -/
def Query.isOfStructure : Query → Bool
  | .structureOf .. => true
  | _ => false

/-- Whether an answer is one of a host that works. -/
def isSound : (q : Query) → Answer q → Bool
  | .structureOf .., .error (.plugin _) => true
  | _, .error _ => false
  | _, .ok _ => true

/-- Everything that a transcript says was asked is answered by a host that works. -/
def Sound (host : Fixed) (lines : List (Dialogue.Line Query Log.Event)) : Prop :=
  ∀ line ∈ lines, line.question?.all (fun q => isSound q (host q)) = true

instance (host : Fixed) (lines : List (Dialogue.Line Query Log.Event)) :
    Decidable (Sound host lines) :=
  inferInstanceAs (Decidable (∀ _ ∈ _, _))

theorem sound_append {host : Fixed} {lines lines' : List (Dialogue.Line Query Log.Event)} :
    Sound host (lines ++ lines') ↔ Sound host lines ∧ Sound host lines' :=
  List.forall_mem_append

end Host

namespace Inspection

variable {α β : Type} {host : Host.Fixed} {P Q : Failure → Prop}

/-- As long as the host works, an inspection fails in certain ways only. -/
structure Fails (host : Host.Fixed) (P : Failure → Prop) (i : Inspection α) : Prop where
  failure : ∀ s, Host.Sound host (transcript host s i) → ∀ f, outcome host s i = .error f → P f

namespace Fails

theorem pure (a : α) : Fails host P (pure a) := ⟨fun _ _ _ h => by cases h⟩

theorem throw {f : Failure} (h : P f) : Fails host P (throw f : Inspection α) := by
  refine ⟨fun _ _ f' hf => ?_⟩
  cases hf
  exact h

theorem report (e : Log.Event) : Fails host P (report e) := ⟨fun _ _ _ h => by cases h⟩

theorem known : Fails host P known := ⟨fun _ _ _ h => by cases h⟩

theorem keep (f : Facts) : Fails host P (keep f) := ⟨fun _ _ _ h => by cases h⟩

/-- Questions other than those about structures are answered. -/
theorem ask {q : Host.Query} (hq : q.isOfStructure = false) : Fails host P (ask q) := by
  refine ⟨fun s hs f hf => ?_⟩
  have hsound : Host.isSound q (host q) = true := hs _ List.mem_cons_self
  have herror : host q = .error f := hf
  rw [herror] at hsound
  cases q <;> first | cases hsound | cases hq

theorem bind {i : Inspection α} {f : α → Inspection β} (hi : Fails host P i)
    (hf : ∀ a, Fails host P (f a)) : Fails host P (i >>= f) := by
  refine ⟨fun s hs e he => ?_⟩
  rw [transcript_bind, Host.sound_append] at hs
  rw [outcome_bind] at he
  cases ho : outcome host s i with
  | error e' =>
    rw [ho] at he
    cases he
    exact hi.failure s hs.1 _ ho
  | ok a =>
    rw [ho] at he hs
    exact (hf a).failure _ hs.2 e he

/-- A handler has to deal only with what fails. -/
theorem tryCatch {i : Inspection α} {h : Failure → Inspection α} (hi : Fails host P i)
    (hh : ∀ f, P f → Fails host Q (h f)) : Fails host Q (tryCatch i h) := by
  refine ⟨fun s hs e he => ?_⟩
  rw [transcript_tryCatch, Host.sound_append] at hs
  rw [outcome_tryCatch] at he
  cases ho : outcome host s i with
  | error e' =>
    rw [ho] at he hs
    exact (hh e' (hi.failure s hs.1 e' ho)).failure _ hs.2 e he
  | ok a =>
    rw [ho] at he
    cases he

theorem ite {p : Prop} [Decidable p] {i j : Inspection α} (hi : Fails host P i)
    (hj : Fails host P j) : Fails host P (if p then i else j) := by
  split
  · exact hi
  · exact hj

theorem mono {i : Inspection α} (h : Fails host P i) (hPQ : ∀ f, P f → Q f) : Fails host Q i :=
  ⟨fun s hs f hf => hPQ f (h.failure s hs f hf)⟩

/-- Going on with an answer, be it a refusal of a structure. -/
theorem answer {q : Host.Query} {f : Host.Answer q → Inspection β}
    (hf : ∀ x, Host.isSound q x = true → Fails host P (f x)) : Fails host P (answer q >>= f) := by
  refine ⟨fun s hs e he => ?_⟩
  rw [transcript_bind, Host.sound_append] at hs
  rw [outcome_bind] at he
  exact (hf (host q) (hs.1 _ List.mem_cons_self)).failure _ hs.2 e he

/-- Reading the facts of a plugin does not fail. -/
theorem readFacts (p : Package) : Fails host P p.readFacts := by
  unfold Package.readFacts
  refine .bind (.ask rfl) fun content => .ite (.pure _) ?_
  refine .answer fun x hx => ?_
  split
  · exact .pure _
  · exact .pure _
  · next f hplugin =>
    cases f with
    | plugin fault => exact absurd rfl (hplugin fault)
    | _ => cases hx

theorem facts (p : Package) : Fails host P p.facts := by
  refine .bind .known fun known? => ?_
  split
  · exact .pure _
  · exact .bind (.readFacts p) fun f => .bind (.keep f) fun _ => .pure _

end Fails

end Inspection

/-! ## Conditions -/

/-- The failure of a condition that is refused. -/
def Failure.IsRefusal (f : Failure) : Prop := ∃ fault, f = .condition fault

namespace Condition

open Inspection (Fails)

variable {host : Host.Fixed} {context : Option Package}

theorem fails_ofFault {α : Type} (r : Except Fault α) :
    Fails host Failure.IsRefusal (Inspection.ofFault r) := by
  cases r with
  | ok a => exact .pure a
  | error f => exact .throw ⟨f, rfl⟩

variable (dirs : Host.Directories)

theorem fails_locate (path : String) : Fails host Failure.IsRefusal (locate dirs path) := by
  unfold locate
  split
  · refine .bind (fails_ofFault _) fun _ => ?_
    exact .bind (.ask rfl) fun _ => .pure _
  · refine .bind (fails_ofFault _) fun _ => ?_
    exact .bind (.ask rfl) fun _ => .pure _

theorem fails_matchingPaths (path : String) :
    Fails host Failure.IsRefusal (matchingPaths dirs path) := by
  unfold matchingPaths
  refine .bind (fails_ofFault _) fun pattern => ?_
  split
  · refine .bind (fails_ofFault _) fun _ => ?_
    exact .bind (.ask rfl) fun _ => .pure _
  · exact .bind (fails_ofFault _) fun _ => .ask rfl

theorem fails_fileExists (path : String) :
    Fails host Failure.IsRefusal (fileExists dirs path) := by
  unfold fileExists
  split
  · exact .bind (fails_matchingPaths dirs path) fun _ => .pure _
  · refine .bind (fails_locate dirs path) fun place => ?_
    split
    · exact .pure _
    · exact .ask rfl

theorem fails_isReadable (path : String) :
    Fails host Failure.IsRefusal (isReadable dirs path) := by
  refine .bind (fails_locate dirs path) fun place => ?_
  split
  · exact .pure _
  · exact .ask rfl

theorem fails_activeMatches {P : Failure → Prop} (pattern : NamePattern) (n : Nat)
    (plugins : List String) : Fails host P (activeMatches pattern n plugins) := by
  induction plugins generalizing n with
  | nil => cases n <;> exact .pure _
  | cons plugin plugins ih =>
    cases n with
    | zero => exact .pure _
    | succ n =>
      refine .bind (.ite (.ask rfl) (.pure _)) fun active => ?_
      split
      · exact ih n
      · exact ih (n + 1)

theorem fails_hasActive (count : Nat) (text : String) :
    Fails host Failure.IsRefusal (hasActive count text) :=
  .bind (fails_ofFault _) fun _ => .bind (.ask rfl) fun _ =>
    fails_activeMatches ..

theorem fails_isActive (plugin : String) : Fails host Failure.IsRefusal (isActive plugin) :=
  .ite (fails_hasActive ..) (.ask rfl)

theorem fails_checksum {P : Failure → Prop} (p : Package) : Fails host P p.checksum :=
  .bind (.facts p) fun _ => .pure _

theorem fails_hasChecksum (path : String) (crc : UInt32) :
    Fails host Failure.IsRefusal (hasChecksum dirs context path crc) := by
  have elsewhere (place : String) : Fails host Failure.IsRefusal (do
      let there : Bool ← Inspection.ask (.isFile place)
      if there then
        let content : ByteArray ← Inspection.ask (.contentOf place)
        return decide (Crc32.checksum content = crc)
      else return false) := by
    refine .bind (.ask rfl) fun there => ?_
    split
    · exact .bind (.ask rfl) fun _ => .pure _
    · exact .pure _
  unfold hasChecksum
  cases context with
  | none =>
    refine .bind (fails_locate dirs path) fun place => ?_
    split
    · exact .pure _
    · exact elsewhere _
  | some p =>
    have ofContext : Fails host Failure.IsRefusal (do return decide ((← p.checksum) = crc)) :=
      .bind (fails_checksum p) fun _ => .pure _
    simp only
    split
    · exact ofContext
    · refine .bind (fails_locate dirs path) fun place => ?_
      split
      · exact .pure _
      · split
        · exact ofContext
        · exact elsewhere _

theorem fails_binaryVersion (path : String) {version? : String → Inspection (Option String)}
    (h : ∀ place, Fails host Failure.IsRefusal (version? place)) :
    Fails host Failure.IsRefusal (binaryVersion dirs path version?) := by
  refine .bind (fails_locate dirs path) fun place => ?_
  split
  · exact .pure _
  · refine .bind (.ask rfl) fun there => ?_
    split
    · exact .bind (h _) fun _ => .pure _
    · exact .pure _

theorem fails_versionOf (path : String) : Fails host Failure.IsRefusal (versionOf dirs path) := by
  unfold versionOf
  simp only
  split
  · exact fails_binaryVersion dirs path fun _ => .ask rfl
  · split
    · refine .bind (fails_locate dirs path) fun place => ?_
      split
      · exact .pure _
      · exact .bind (.ask rfl) fun _ => .pure _
    · exact .throw ⟨_, rfl⟩

theorem fails_productVersionOf (path : String) :
    Fails host Failure.IsRefusal (productVersionOf dirs path) := by
  unfold productVersionOf
  split
  · exact fails_binaryVersion dirs path fun _ => .ask rfl
  · exact .throw ⟨_, rfl⟩

theorem fails_holds (c : Call) : Fails host Failure.IsRefusal (c.holds dirs context) := by
  cases c with
  | file path => exact fails_fileExists dirs path
  | readable path => exact fails_isReadable dirs path
  | active plugin => exact fails_isActive plugin
  | many pattern => exact .bind (fails_matchingPaths dirs pattern) fun _ => .pure _
  | manyActive pattern => exact fails_hasActive 2 pattern
  | isMaster plugin => exact .ask rfl
  | checksum path crc => exact fails_hasChecksum dirs path crc
  | version path given sign => exact .bind (fails_versionOf dirs path) fun _ => .pure _
  | productVersion path given sign =>
    exact .bind (fails_productVersionOf dirs path) fun _ => .pure _

theorem fails_answerCalls (text : List Char) (calls : List FunctionCall) :
    Fails host Failure.IsRefusal (answerCalls dirs context text calls) := by
  induction calls generalizing text with
  | nil => exact .pure _
  | cons call calls ih =>
    refine .bind (fails_ofFault _) fun c => .bind (fails_holds dirs c) fun _ => ?_
    exact .bind (.report _) fun _ => ih _

theorem fails_evaluate (condition : String) :
    Fails host Failure.IsRefusal (evaluate dirs context condition) := by
  have hbody : Fails host Failure.IsRefusal (evaluateBody dirs context condition) := by
    refine .bind (fails_answerCalls dirs _ _) fun _ => ?_
    exact .bind (fails_ofFault _) fun _ => .bind (.report _) fun _ => .pure _
  refine .bind (.report _) fun _ => hbody.tryCatch ?_
  rintro _ ⟨f, rfl⟩
  exact .throw ⟨_, rfl⟩

end Condition

end PluginAudit
