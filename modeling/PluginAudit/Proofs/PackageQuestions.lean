import PluginAudit.Host.Memory
import PluginAudit.Proofs.FileAnswers
import PluginAudit.Proofs.FixedAnswers

/-!
# Questions about one plugin

A plugin may be asked for its checksum and its marks in any order and any number of times. Its file
is read for the first question that needs it, and what was found out answers the later ones. Neither
this nor a question that fails shows in the answers: each is the one that is given when nothing is
known yet (`outcome_askAll`). Once its facts are found out, the file is not read again
(`reads_askAll`).
-/

namespace PluginAudit

namespace Inspection

variable {α : Type}

/-- An inspection whose failure is a result. -/
def attempt (i : Inspection α) : Inspection (Except Failure α) :=
  tryCatch (return .ok (← i)) fun f => return .error f

theorem Composed.attempt {warns : Bool} {context : Option Package} {i : Inspection α}
    (h : Composed warns context i) : Composed warns context (attempt i) :=
  .tryCatch (.bind h fun _ => .pure _) fun _ => .pure _

theorem hold_attempt (host : Host.Fixed) (s : Option Facts) (i : Inspection α) :
    hold host s (attempt i) = (transcript host s i, .ok (outcome host s i), after host s i) := by
  rw [attempt, hold_tryCatch, outcome_bind, transcript_bind, after_bind]
  cases outcome host s i with
  | ok a => exact congrArg (·, _) (List.append_nil _)
  | error f =>
    refine congrArg (·, _) ?_
    exact (List.append_nil _).trans (List.append_nil _)

theorem transcript_attempt (host : Host.Fixed) (s : Option Facts) (i : Inspection α) :
    transcript host s (attempt i) = transcript host s i :=
  congrArg (·.1) (hold_attempt host s i)

theorem outcome_attempt (host : Host.Fixed) (s : Option Facts) (i : Inspection α) :
    outcome host s (attempt i) = .ok (outcome host s i) :=
  congrArg (·.2.1) (hold_attempt host s i)

theorem after_attempt (host : Host.Fixed) (s : Option Facts) (i : Inspection α) :
    after host s (attempt i) = after host s i :=
  congrArg (·.2.2) (hold_attempt host s i)

/-- The paths of the files whose content is asked for, in order. -/
def reads (lines : List (Dialogue.Line Host.Query Log.Event)) : List String :=
  lines.filterMap fun
    | .asked (.contentOf path) => some path
    | _ => none

theorem reads_append (lines lines' : List (Dialogue.Line Host.Query Log.Event)) :
    reads (lines ++ lines') = reads lines ++ reads lines' :=
  List.filterMap_append

end Inspection

namespace Package

open Inspection

/-- What may be asked about a plugin. -/
inductive Question where
  | checksum
  | isMaster
  | isLight
  | isValidAsLight
  | isMedium
  | isValidAsMedium
  | isUpdate
  | isValidAsUpdate
  deriving Repr, DecidableEq

/-- What a question about a plugin is answered with. -/
inductive Reply where
  | checksum (crc : UInt32)
  | mark (holds : Bool)
  deriving Repr, DecidableEq

/-- Asks a question about a plugin. -/
def ask (p : Package) : Question → Inspection Reply
  | .checksum => return .checksum (← p.checksum)
  | .isMaster => return .mark (← p.isMaster)
  | .isLight => return .mark (← p.isLight)
  | .isValidAsLight => return .mark (← p.isValidAsLight)
  | .isMedium => return .mark (← p.isMedium)
  | .isValidAsMedium => return .mark (← p.isValidAsMedium)
  | .isUpdate => return .mark (← p.isUpdate)
  | .isValidAsUpdate => return .mark (← p.isValidAsUpdate)

/-- Asks one question after the other. A failure answers its question, and the next one is asked. -/
def askAll (p : Package) : List Question → Inspection (List (Except Failure Reply))
  | [] => return []
  | q :: qs => do
    let reply ← attempt (p.ask q)
    return reply :: (← p.askAll qs)

/-- Whether the name of a plugin answers a question. -/
def Question.AnsweredByName (p : Package) (q : Question) : Prop :=
  p.isLightByName = true ∧ (q = .isLight ∨ q = .isMedium ∨ q = .isUpdate)

instance (p : Package) (q : Question) : Decidable (q.AnsweredByName p) :=
  inferInstanceAs (Decidable (_ ∧ _))

/-- Answers a question from the facts of a plugin. -/
def answer (p : Package) (q : Question) (f : Facts) : Inspection Reply :=
  match q with
  | .checksum => return .checksum f.checksum
  | .isMaster => do
    match f.structure? with
    | .ok (some s) => return .mark s.isMaster
    | .ok none => return .mark (← Inspection.ask (.isMasterPlugin p.name))
    | .error fault => throw (.plugin fault)
  | .isLight => mark (·.isLight) false
  | .isValidAsLight => mark (·.isValidAsLight) true
  | .isMedium => mark (·.isMedium) false
  | .isValidAsMedium => mark (·.isValidAsMedium) true
  | .isUpdate => mark (·.isUpdate) false
  | .isValidAsUpdate => mark (·.isValidAsUpdate) true
where
  mark (get : Plugin.Structure → Bool) (default : Bool) : Inspection Reply :=
    match f.structure? with
    | .ok s => return .mark ((s.map get).getD default)
    | .error fault => throw (.plugin fault)

variable {p : Package}

/-! ## One question -/

theorem mark_eq_answer (get : Plugin.Structure → Bool) (default : Bool) :
    (do return .mark (← p.mark get default) : Inspection Reply) =
      p.facts >>= (answer.mark · get default) := by
  simp only [Package.mark, Package.structure?, bind_assoc, pure_bind]
  refine bind_congr fun f => ?_
  rw [answer.mark]
  cases f.structure? with
  | ok s => rfl
  | error fault => rfl

/-- A question that the name does not answer is answered from the facts. -/
theorem ask_eq_answer {q : Question} (h : ¬ q.AnsweredByName p) :
    p.ask q = p.facts >>= p.answer q := by
  have hname : q = .isLight ∨ q = .isMedium ∨ q = .isUpdate → ¬ p.isLightByName = true :=
    fun hq hl => h ⟨hl, hq⟩
  cases q with
  | checksum => simp only [ask, Package.checksum, bind_assoc, pure_bind]; rfl
  | isMaster =>
    simp only [ask, Package.isMaster, Package.structure?, bind_assoc]
    refine bind_congr fun f => ?_
    rw [answer]
    rcases f.structure? with fault | s | s
    · rfl
    · rfl
    · rfl
  | isLight =>
    rw [ask, Package.isLight, if_neg (hname (.inl rfl))]
    exact mark_eq_answer _ _
  | isValidAsLight => exact mark_eq_answer _ _
  | isMedium =>
    rw [ask, Package.isMedium, if_neg (hname (.inr (.inl rfl)))]
    exact mark_eq_answer _ _
  | isValidAsMedium => exact mark_eq_answer _ _
  | isUpdate =>
    rw [ask, Package.isUpdate, if_neg (hname (.inr (.inr rfl)))]
    exact mark_eq_answer _ _
  | isValidAsUpdate => exact mark_eq_answer _ _

theorem ask_eq_pure {q : Question} (h : q.AnsweredByName p) :
    p.ask q = pure (.mark (decide (q = .isLight))) := by
  obtain ⟨hl, rfl | rfl | rfl⟩ := h
  · rw [ask, Package.isLight, if_pos hl]
    rfl
  · rw [ask, Package.isMedium, if_pos hl]
    rfl
  · rw [ask, Package.isUpdate, if_pos hl]
    rfl

variable {warns : Bool} {context : Option Package}

/-- From the facts, a question is answered or refused at once, or handed on to the host. -/
theorem answer_cases (p : Package) (q : Question) (f : Facts) :
    (∃ reply, p.answer q f = pure reply) ∨ (∃ e, p.answer q f = throw e) ∨
      p.answer q f = do return .mark (← Inspection.ask (.isMasterPlugin p.name)) := by
  have hmark (get : Plugin.Structure → Bool) (default : Bool) :
      (∃ reply, answer.mark f get default = pure reply) ∨
        ∃ e, answer.mark f get default = throw e := by
    rw [answer.mark]
    cases f.structure? with
    | ok structure? => exact .inl ⟨_, rfl⟩
    | error fault => exact .inr ⟨_, rfl⟩
  cases q with
  | checksum => exact .inl ⟨_, rfl⟩
  | isMaster =>
    rw [answer]
    rcases f.structure? with fault | none | s
    · exact .inr (.inl ⟨_, rfl⟩)
    · exact .inr (.inr rfl)
    · exact .inl ⟨_, rfl⟩
  | isLight => exact (hmark _ _).imp_right .inl
  | isValidAsLight => exact (hmark _ _).imp_right .inl
  | isMedium => exact (hmark _ _).imp_right .inl
  | isValidAsMedium => exact (hmark _ _).imp_right .inl
  | isUpdate => exact (hmark _ _).imp_right .inl
  | isValidAsUpdate => exact (hmark _ _).imp_right .inl

theorem composed_answer (q : Question) (f : Facts) : Composed warns context (p.answer q f) := by
  obtain ⟨reply, h⟩ | ⟨e, h⟩ | h := answer_cases p q f
  · rw [h]
    exact .pure _
  · rw [h]
    exact .throw _
  · rw [h]
    exact .bind (.ask _) fun _ => .pure _

theorem composed_ask (q : Question) : Composed warns (some p) (p.ask q) := by
  by_cases h : q.AnsweredByName p
  · rw [ask_eq_pure h]
    exact .pure _
  · rw [ask_eq_answer h]
    exact .bind (.facts p rfl) fun f => composed_answer q f

/-! ## One question after the other -/

theorem composed_askAll (qs : List Question) : Composed warns (some p) (p.askAll qs) := by
  induction qs with
  | nil => exact .pure _
  | cons q qs ih => exact .bind (composed_ask q).attempt fun _ => .bind ih fun _ => .pure _

variable {host : Host.Fixed}

/-- Each question is answered as it is when nothing is known yet. -/
theorem outcome_askAll (qs : List Question) :
    outcome host none (p.askAll qs) = .ok (qs.map fun q => outcome host none (p.ask q)) := by
  induction qs with
  | nil => rfl
  | cons q qs ih =>
    have hq : Composed false (some p) (p.ask q) := composed_ask q
    have hrest (reply : Except Failure Reply) :
        Composed false (some p) (do return reply :: (← p.askAll qs)) :=
      .bind (composed_askAll qs) fun _ => .pure _
    -- What became known for the first question does not show in the answers to the others.
    rw [askAll, hq.attempt.outcome_bind hrest, outcome_attempt]
    show outcome host none (do return _ :: (← p.askAll qs)) = _
    rw [outcome_bind, ih]
    rfl

theorem transcript_askAll_cons (s : Option Facts) (q : Question) (qs : List Question) :
    transcript host s (p.askAll (q :: qs)) =
      transcript host s (p.ask q) ++ transcript host (after host s (p.ask q)) (p.askAll qs) := by
  rw [askAll, transcript_bind, transcript_attempt, outcome_attempt, after_attempt]
  refine congrArg (_ ++ ·) ?_
  show transcript host _ (p.askAll qs >>= _) = _
  rw [transcript_bind]
  cases outcome host (after host s (p.ask q)) (p.askAll qs) with
  | ok replies => exact List.append_nil _
  | error f => exact List.append_nil _

/-! ## Reading the file -/

/-- To answer from the facts, no file is read, and the same facts stay known. -/
theorem reads_answer (host : Host.Fixed) (p : Package) (s : Option Facts) (q : Question)
    (f : Facts) :
    reads (transcript host s (p.answer q f)) = [] ∧ after host s (p.answer q f) = s := by
  obtain ⟨reply, h⟩ | ⟨e, h⟩ | h := answer_cases p q f
  · rw [h]
    exact ⟨rfl, rfl⟩
  · rw [h]
    exact ⟨rfl, rfl⟩
  · rw [h, transcript_bind, after_bind, outcome_ask]
    cases (host (.isMasterPlugin p.name) : Except Failure Bool) with
    | ok isMaster => exact ⟨rfl, rfl⟩
    | error e => exact ⟨rfl, rfl⟩

theorem reads_readFacts : reads (transcript host none p.readFacts) = [p.path] := by
  have hask : transcript host none (Inspection.ask (.contentOf p.path)) =
      [.asked (.contentOf p.path)] := rfl
  rw [Package.readFacts, transcript_bind, hask, outcome_ask]
  cases (host (.contentOf p.path) : Except Failure ByteArray) with
  | error f => rfl
  | ok content =>
    refine congrArg (p.path :: ·) ?_
    show reads (transcript host none (if content.size = 0 then _ else _)) = []
    split
    · rfl
    · rw [transcript_bind, outcome_answer]
      refine (reads_append _ _).trans ?_
      dsimp only
      split
      · rfl
      · rfl
      · rfl

/-- The file is read for the first question that needs it. -/
theorem reads_facts_none : reads (transcript host none p.facts) = [p.path] := by
  have hkeep : transcript host none p.facts =
      transcript host none (do let f ← p.readFacts; Inspection.keep f; return f) := by
    rw [Package.facts, transcript_bind]
    exact List.nil_append _
  rw [hkeep, transcript_bind, reads_append, reads_readFacts]
  cases outcome host none p.readFacts with
  | ok f => rfl
  | error f => rfl

theorem ask_known (host : Host.Fixed) (p : Package) (f : Facts) (q : Question) :
    reads (transcript host (some f) (p.ask q)) = [] ∧ after host (some f) (p.ask q) = some f := by
  by_cases h : q.AnsweredByName p
  · rw [ask_eq_pure h]
    exact ⟨rfl, rfl⟩
  · have hanswer := reads_answer host p (some f) q f
    rw [ask_eq_answer h, transcript_bind, after_bind, reads_append]
    exact hanswer

/-- The first question that needs the file reads it, and its facts are known afterwards if they
could be found out. -/
theorem ask_fresh (host : Host.Fixed) {q : Question} (h : ¬ q.AnsweredByName p) :
    reads (transcript host none (p.ask q)) = [p.path] ∧
      after host none (p.ask q) = (outcome host none p.readFacts).toOption := by
  rw [ask_eq_answer h, transcript_bind, after_bind, reads_append, reads_facts_none,
    outcome_facts_none, after_facts_none]
  cases outcome host none p.readFacts with
  | error e => exact ⟨rfl, rfl⟩
  | ok f =>
    obtain ⟨hreads, hafter⟩ := reads_answer host p (some f) q f
    exact ⟨congrArg ([p.path] ++ ·) hreads, hafter⟩

theorem reads_askAll_known (f : Facts) (qs : List Question) :
    reads (transcript host (some f) (p.askAll qs)) = [] := by
  induction qs with
  | nil => rfl
  | cons q qs ih =>
    obtain ⟨hreads, hafter⟩ := ask_known host p f q
    rw [transcript_askAll_cons, reads_append, hreads, hafter, ih]
    rfl

theorem transcript_askAll_byName (s : Option Facts) {qs : List Question}
    (h : ∀ q ∈ qs, q.AnsweredByName p) : transcript host s (p.askAll qs) = [] := by
  induction qs with
  | nil => rfl
  | cons q qs ih =>
    obtain ⟨hq, hqs⟩ := List.forall_mem_cons.1 h
    rw [transcript_askAll_cons, ask_eq_pure hq]
    exact ih hqs

/-- The file is read for each question that needs it, until its facts are found out. -/
theorem reads_askAll (qs : List Question) :
    reads (transcript host none (p.askAll qs)) =
      let needing := qs.filter fun q => ¬ q.AnsweredByName p
      match outcome host none p.readFacts with
      | .ok _ => (needing.take 1).map fun _ => p.path
      | .error _ => needing.map fun _ => p.path := by
  induction qs with
  | nil => cases outcome host none p.readFacts <;> rfl
  | cons q qs ih =>
    rw [transcript_askAll_cons, reads_append]
    by_cases hq : q.AnsweredByName p
    · rw [List.filter_cons_of_neg (by simpa using hq), ask_eq_pure hq]
      exact ih
    · obtain ⟨hreads, hafter⟩ := ask_fresh host hq
      rw [List.filter_cons_of_pos (by simpa using hq), hreads, hafter]
      -- A failure leaves nothing known, so the later questions are asked as if they were the first.
      cases hfacts : outcome host none p.readFacts with
      | ok f => exact congrArg ([p.path] ++ ·) (reads_askAll_known f qs)
      | error e =>
        rw [hfacts] at ih
        exact congrArg ([p.path] ++ ·) ih

/-! ## What a host says about the file -/

/-- Whether a host gives the content of the file, and its structure unless the file is empty or the
plugin not well formed. -/
def GivesFacts (host : Host.Fixed) (p : Package) : Prop :=
  ∃ content : ByteArray, host (.contentOf p.path) = .ok content ∧ (content.size ≠ 0 →
    ∀ f, host (.structureOf content p.name) = .error f → ∃ fault, f = .plugin fault)

/-- Whether the plugin is not well formed, for the given reason. -/
structure IsMalformed (host : Host.Fixed) (p : Package) (content : ByteArray)
    (fault : Plugin.Fault) : Prop where
  read : host (.contentOf p.path) = .ok content
  size_ne : content.size ≠ 0
  refused : host (.structureOf content p.name) = .error (.plugin fault)

/-- Whether there is no structure to be known, since the file is empty or the host has none. -/
structure LacksStructure (host : Host.Fixed) (p : Package) (content : ByteArray) : Prop where
  read : host (.contentOf p.path) = .ok content
  lacks : content.size = 0 ∨ host (.structureOf content p.name) = .ok none

theorem GivesFacts.exists_facts (h : GivesFacts host p) :
    ∃ f, outcome host none p.readFacts = .ok f := by
  obtain ⟨content, hread, hrefused⟩ := h
  obtain ⟨found, hfound⟩ := exists_structureFound hrefused
  refine ⟨⟨Crc32.checksum content, found⟩, ?_⟩
  rw [outcome_readFacts, hread]
  exact congrArg (Except.map _) hfound

theorem IsMalformed.facts {content : ByteArray} {fault : Plugin.Fault}
    (h : IsMalformed host p content fault) :
    outcome host none p.readFacts = .ok ⟨Crc32.checksum content, .error fault⟩ := by
  have hfound : p.structureFound host content = .ok (.error fault) := by
    unfold structureFound
    rw [if_neg h.size_ne, h.refused]
  rw [outcome_readFacts, h.read]
  exact congrArg (Except.map _) hfound

theorem LacksStructure.facts {content : ByteArray} (h : LacksStructure host p content) :
    outcome host none p.readFacts = .ok ⟨Crc32.checksum content, .ok none⟩ := by
  have hfound : p.structureFound host content = .ok (.ok none) := by
    unfold structureFound
    split
    · rfl
    · next hsize => rw [h.lacks.resolve_left hsize]
  rw [outcome_readFacts, h.read]
  exact congrArg (Except.map _) hfound

/-! ## What a question is answered with -/

theorem outcome_ask_of_facts {f : Facts} (hf : outcome host none p.readFacts = .ok f)
    {q : Question} (h : ¬ q.AnsweredByName p) :
    outcome host none (p.ask q) = outcome host (some f) (p.answer q f) := by
  rw [ask_eq_answer h, outcome_bind, outcome_facts_none, after_facts_none, hf]
  rfl

/-- The answers about a plugin that is not well formed, unless its name gives them. -/
def malformedReply (content : ByteArray) (fault : Plugin.Fault) :
    Question → Except Failure Reply
  | .checksum => .ok (.checksum (Crc32.checksum content))
  | _ => .error (.plugin fault)

theorem IsMalformed.outcome_ask {content : ByteArray} {fault : Plugin.Fault}
    (h : IsMalformed host p content fault) {q : Question} (hq : ¬ q.AnsweredByName p) :
    outcome host none (p.ask q) = malformedReply content fault q := by
  rw [outcome_ask_of_facts h.facts hq]
  cases q <;> rfl

/-- The answers about a plugin of which no structure is known. -/
def plainReply (host : Host.Fixed) (p : Package) (content : ByteArray) :
    Question → Except Failure Reply
  | .checksum => .ok (.checksum (Crc32.checksum content))
  | .isMaster => (host (.isMasterPlugin p.name)).map .mark
  | .isLight => .ok (.mark p.isLightByName)
  | .isMedium | .isUpdate => .ok (.mark false)
  | .isValidAsLight | .isValidAsMedium | .isValidAsUpdate => .ok (.mark true)

theorem LacksStructure.outcome_ask {content : ByteArray} (h : LacksStructure host p content)
    (q : Question) : outcome host none (p.ask q) = plainReply host p content q := by
  by_cases hq : q.AnsweredByName p
  · rw [ask_eq_pure hq]
    obtain ⟨hl, rfl | rfl | rfl⟩ := hq
    · rw [plainReply, hl]
      rfl
    · rfl
    · rfl
  · rw [outcome_ask_of_facts h.facts hq]
    cases q with
    | isMaster =>
      refine (outcome_ask_bind host _ _).trans ?_
      rw [plainReply]
      cases (host (.isMasterPlugin p.name) : Except Failure Bool) <;> rfl
    | isLight =>
      have hl : p.isLightByName = false := by
        rw [← Bool.not_eq_true]
        exact fun hl => hq ⟨hl, .inl rfl⟩
      rw [plainReply, hl]
      rfl
    | _ => rfl

/-- What a plugin is asked before, and whether that failed, changes no answer. If the host can read
the file and refuses its structure only for not being well formed, all questions together read it
once at most, and those that the name answers ask nothing of the host. A plugin that is not well
formed keeps its checksum, and every question about its structure fails for the same reason. Where
there is no structure, the plugin counts as valid in every way. -/
theorem askAll_steady (host : Host.Fixed) (p : Package) (qs : List Question) :
    outcome host none (p.askAll qs) = .ok (qs.map fun q => outcome host none (p.ask q)) ∧
      (GivesFacts host p → (reads (transcript host none (p.askAll qs))).length ≤ 1) ∧
      (∀ s, (∀ q ∈ qs, q.AnsweredByName p) → transcript host s (p.askAll qs) = []) ∧
      (∀ content fault, IsMalformed host p content fault → ∀ q : Question,
        ¬ q.AnsweredByName p → outcome host none (p.ask q) = malformedReply content fault q) ∧
      ∀ content, LacksStructure host p content → ∀ q : Question,
        outcome host none (p.ask q) = plainReply host p content q := by
  refine ⟨outcome_askAll qs, fun h => ?_, fun s h => transcript_askAll_byName s h,
    fun content fault h q hq => h.outcome_ask hq, fun content h q => h.outcome_ask q⟩
  obtain ⟨f, hf⟩ := h.exists_facts
  rw [reads_askAll, hf]
  dsimp only
  rw [List.length_map]
  exact List.length_take_le 1 _

theorem askAll_steady_malformed :
    let h : Host.Memory := {
      files := [("/game/Data/Bad.esp", "123456789".toUTF8), ("/game/Data/Empty.ESL", "".toUTF8)]
      structures := [("Bad.esp", .error (.tooSmall "Bad.esp"))]
      masters := ["empty.esl"] }
    let bad : Package := ⟨"/game/Data/Bad.esp"⟩
    let empty : Package := ⟨"/game/Data/Empty.ESL"⟩
    let lightOnly : List Question := [.isUpdate, .isLight, .isUpdate]
    GivesFacts h.answer bad ∧
      (reads (transcript h.answer none (bad.askAll [.isLight, .checksum, .isLight]))).length ≤ 1 ∧
      IsMalformed h.answer bad "123456789".toUTF8 (.tooSmall "Bad.esp") ∧
      ¬ Question.isLight.AnsweredByName bad ∧
      outcome h.answer none (bad.askAll [.isLight, .checksum, .isLight]) =
        .ok [.error (.plugin (.tooSmall "Bad.esp")), .ok (.checksum 0xCBF43926),
          .error (.plugin (.tooSmall "Bad.esp"))] ∧
      (∀ q ∈ lightOnly, q.AnsweredByName empty) ∧
      transcript h.answer none (empty.askAll lightOnly) = [] ∧
      LacksStructure h.answer empty "".toUTF8 ∧
      outcome h.answer none (empty.ask .isMaster) = .ok (.mark true) := by
  intro h bad empty lightOnly
  have hread : h.contentOf bad.path = .ok "123456789".toUTF8 := by decide +kernel
  have hrefused : h.structureOf bad.name = .error (.plugin (.tooSmall "Bad.esp")) := by
    decide +kernel
  have hmalformed : IsMalformed h.answer bad "123456789".toUTF8 (.tooSmall "Bad.esp") :=
    ⟨hread, by decide +kernel, hrefused⟩
  have hgives : GivesFacts h.answer bad :=
    ⟨_, hread, fun _ f hf => ⟨_, Except.error.inj (hf.symm.trans hrefused)⟩⟩
  have hlight : ¬ Question.isLight.AnsweredByName bad := by decide +kernel
  have hname : ∀ q ∈ lightOnly, q.AnsweredByName empty := by decide +kernel
  have hlacks : LacksStructure h.answer empty "".toUTF8 := ⟨rfl, .inl rfl⟩
  have hcrc : Crc32.checksum "123456789".toUTF8 = 0xCBF43926 := by decide +kernel
  obtain ⟨hreplies, hreads, -, hrefuses, -⟩ :=
    askAll_steady h.answer bad [.isLight, .checksum, .isLight]
  obtain ⟨-, -, hsilent, -, -⟩ := askAll_steady h.answer empty lightOnly
  obtain ⟨-, -, -, -, hplain⟩ := askAll_steady h.answer empty []
  refine ⟨hgives, hreads hgives, hmalformed, hlight, ?_, hname, hsilent none hname, hlacks, ?_⟩
  · have hisLight : outcome h.answer none (bad.ask .isLight) =
        .error (.plugin (.tooSmall "Bad.esp")) := hrefuses _ _ hmalformed .isLight hlight
    have hchecksum : outcome h.answer none (bad.ask .checksum) = .ok (.checksum 0xCBF43926) := by
      rw [hrefuses _ _ hmalformed .checksum (by decide +kernel), malformedReply, hcrc]
    rw [hreplies, List.map_cons, List.map_cons, List.map_cons, List.map_nil, hisLight, hchecksum]
  · have hmaster : h.isMasterPlugin empty.name = .ok true := by decide +kernel
    rw [hplain _ hlacks .isMaster]
    exact congrArg (Except.map Reply.mark) hmaster

end Package

end PluginAudit
