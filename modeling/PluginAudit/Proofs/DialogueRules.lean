import PluginAudit.Package

/-!
# Rules for dialogues

What a dialogue may ask and note, whatever it is answered. `Rules` say which answers have to be
reckoned with, which questions may be asked and which notes made; a dialogue `Obeys` them if it does
so along every course, and its result is as promised. Answers may change in the course of a
dialogue, so this is about every host, be its answers fixed or not.

A rule of inference for each way to build an inspection, and `Dialogue.Obeys.run` for what has been
shown of a dialogue held with fixed answers.
-/

namespace PluginAudit

/-- What may happen in a dialogue. -/
structure Rules (Q : Type) (A : Q → Type) (N : Type) where
  /-- The answers that have to be reckoned with. -/
  admits : (q : Q) → A q → Prop
  /-- The questions that may be asked. -/
  mayAsk : Q → Prop
  /-- The notes that may be made. -/
  mayNote : N → Prop

namespace Dialogue

variable {Q : Type} {A : Q → Type} {N α β : Type} {rules : Rules Q A N}

/-- Along every course, a dialogue obeys the rules and ends with a result as promised. -/
def Obeys (rules : Rules Q A N) (post : α → Prop) : Dialogue Q A N α → Prop
  | done a => post a
  | ask q next => rules.mayAsk q ∧ ∀ x, rules.admits q x → (next x).Obeys rules post
  | note n next => rules.mayNote n ∧ (next ()).Obeys rules post

theorem Obeys.bind {post : α → Prop} {post' : β → Prop} {d : Dialogue Q A N α}
    {f : α → Dialogue Q A N β} (hd : d.Obeys rules post)
    (hf : ∀ a, post a → (f a).Obeys rules post') : (d.bind f).Obeys rules post' := by
  induction d with
  | done a => exact hf a hd
  | ask q next ih => exact ⟨hd.1, fun x hx => ih x (hd.2 x hx)⟩
  | note n next ih => exact ⟨hd.1, ih () hd.2⟩

/-- A line of a transcript that the rules allow. -/
def Allows (rules : Rules Q A N) : Line Q N → Prop
  | .asked q => rules.mayAsk q
  | .noted n => rules.mayNote n

/-- With fixed answers, all lines of the transcript are allowed and the result is as promised. -/
theorem Obeys.run {post : α → Prop} {d : Dialogue Q A N α} (hd : d.Obeys rules post)
    {answer : (q : Q) → A q} (ha : ∀ q, rules.admits q (answer q)) :
    (∀ line ∈ (d.run answer).1, Allows rules line) ∧ post (d.run answer).2 := by
  induction d with
  | done a => exact ⟨by simp [Dialogue.run], hd⟩
  | ask q next ih =>
    obtain ⟨hl, hp⟩ := ih _ (hd.2 _ (ha q))
    refine ⟨fun line h => ?_, hp⟩
    rcases List.mem_cons.1 h with rfl | h
    · exact hd.1
    · exact hl line h
  | note n next ih =>
    obtain ⟨hl, hp⟩ := ih _ hd.2
    refine ⟨fun line h => ?_, hp⟩
    rcases List.mem_cons.1 h with rfl | h
    · exact hd.1
    · exact hl line h

end Dialogue

namespace Inspection

variable {α β : Type} {rules : Rules Host.Query Host.Answer Log.Event}

/-- Whatever facts are known, an inspection obeys the rules, and its result, if there is one, is as
promised. -/
structure Obeys (rules : Rules Host.Query Host.Answer Log.Event) (i : Inspection α)
    (post : α → Prop) : Prop where
  dialogue : ∀ s, Dialogue.Obeys rules (fun (r, _) => ∀ a, r = .ok a → post a) (i s)

namespace Obeys

variable {post : α → Prop}

theorem pure {a : α} (h : post a) : Obeys rules (pure a) post := by
  refine ⟨fun s => ?_⟩
  rintro _ ⟨⟩
  exact h

theorem throw (f : Failure) : Obeys rules (throw f) post := by
  refine ⟨fun s => ?_⟩
  rintro _ ⟨⟩

theorem ask {q : Host.Query} {post : Host.Value q → Prop} (hq : rules.mayAsk q)
    (h : ∀ a, rules.admits q (.ok a) → post a) : Obeys rules (ask q) post := by
  refine ⟨fun s => ⟨hq, fun x hx => ?_⟩⟩
  rintro a rfl
  exact h a hx

theorem answer {q : Host.Query} {post : Host.Answer q → Prop} (hq : rules.mayAsk q)
    (h : ∀ a, rules.admits q a → post a) : Obeys rules (answer q) post := by
  refine ⟨fun s => ⟨hq, fun x hx => ?_⟩⟩
  rintro _ ⟨⟩
  exact h x hx

theorem asks {q : Host.Query} (hq : rules.mayAsk q) :
    Obeys rules (Inspection.ask q) (fun _ => True) :=
  .ask hq fun _ _ => trivial

theorem answers {q : Host.Query} (hq : rules.mayAsk q) :
    Obeys rules (Inspection.answer q) (fun _ => True) :=
  .answer hq fun _ _ => trivial

theorem report {e : Log.Event} (he : rules.mayNote e) : Obeys rules (report e) (fun _ => True) :=
  ⟨fun _ => ⟨he, fun _ _ => trivial⟩⟩

theorem bind {post : α → Prop} {post' : β → Prop} {i : Inspection α} {f : α → Inspection β}
    (hi : Obeys rules i post) (hf : ∀ a, post a → Obeys rules (f a) post') :
    Obeys rules (i >>= f) post' := by
  refine ⟨fun s => (hi.dialogue s).bind ?_⟩
  rintro ⟨r | a, s'⟩ hr
  · rintro _ ⟨⟩
  · exact (hf a (hr a rfl)).dialogue s'

theorem tryCatch {i : Inspection α} {h : Failure → Inspection α} (hi : Obeys rules i post)
    (hh : ∀ e, Obeys rules (h e) post) : Obeys rules (tryCatch i h) post := by
  refine ⟨fun s => (hi.dialogue s).bind ?_⟩
  rintro ⟨r | a, s'⟩ hr
  · exact (hh r).dialogue s'
  · exact hr

theorem ofFault {r : Except Condition.Fault α} (h : ∀ a, r = .ok a → post a) :
    Obeys rules (ofFault r) post := by
  cases r with
  | ok a => exact .pure (h a rfl)
  | error f => exact .throw _

theorem ite {p : Prop} [Decidable p] {i j : Inspection α} (hi : p → Obeys rules i post)
    (hj : ¬ p → Obeys rules j post) : Obeys rules (if p then i else j) post := by
  split
  · exact hi ‹_›
  · exact hj ‹_›

/-- Facts may be read wherever the file and its structure may be asked for. -/
theorem facts {p : Package} (hc : rules.mayAsk (.contentOf p.path))
    (hs : ∀ content, rules.mayAsk (.structureOf content p.name)) :
    Obeys rules p.facts (fun _ => True) := by
  have hread : Obeys rules p.readFacts (fun _ => True) := by
    refine .bind (.asks hc) fun content _ => ?_
    refine .ite (fun _ => .pure trivial) fun _ => ?_
    refine .bind (.answers (hs _)) fun r _ => ?_
    split
    · exact .pure trivial
    · exact .pure trivial
    · exact .throw _
  have hknown : Obeys rules known (fun _ => True) := ⟨fun _ _ _ => trivial⟩
  have hkeep (f : Facts) : Obeys rules (keep f) (fun _ => True) := ⟨fun _ _ _ => trivial⟩
  refine .bind hknown fun known? _ => ?_
  split
  · exact .pure trivial
  · exact .bind hread fun f _ => .bind (hkeep f) fun _ _ => .pure trivial

end Obeys

end Inspection

end PluginAudit
