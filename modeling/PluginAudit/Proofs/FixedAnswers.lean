import PluginAudit.Proofs.DialogueRules

/-!
# Inspections with fixed answers

A host whose answers never change gives every inspection a transcript, a result (`outcome`) and the
facts that are known in the end (`after`). Sequencing and catching are worked out once here, so that
later proofs reason about results and not about dialogues.

An inspection that is `Composed` of questions, reports and the facts of its context has a result
that does not depend on whether those facts became known on the way: `Composed.steady`. Results of
such inspections therefore compose as if each had been obtained alone (`Composed.outcome_bind`).
-/

namespace PluginAudit

namespace Host

/-- A host whose answers never change. -/
abbrev Fixed := (q : Query) → Answer q

end Host

namespace Log

/-- Anything may be asked, but no error reported. -/
def quiet : Rules Host.Query Host.Answer Event where
  admits _ _ := True
  mayAsk _ := True
  mayNote e := e.level ≠ .error

end Log

namespace Inspection

variable {α β : Type}

section

variable (host : Host.Fixed) (s : Option Facts)

/-- What becomes of an inspection that begins with the facts `s`: its transcript, its result and the
facts known in the end. -/
def hold (i : Inspection α) :
    List (Dialogue.Line Host.Query Log.Event) × Except Failure α × Option Facts :=
  Dialogue.run host (i s)

def transcript (i : Inspection α) : List (Dialogue.Line Host.Query Log.Event) := (hold host s i).1

def outcome (i : Inspection α) : Except Failure α := (hold host s i).2.1

/-- The facts known in the end. -/
def after (i : Inspection α) : Option Facts := (hold host s i).2.2

/-! ## Sequencing and catching -/

theorem bind_apply (i : Inspection α) (f : α → Inspection β) :
    (i >>= f) s = (i s).bind fun (r, s') =>
      match r with
      | .ok a => f a s'
      | .error e => .done (.error e, s') := by
  show Dialogue.bind _ _ = _
  congr 1
  funext x
  rcases x with ⟨r | r, s'⟩ <;> rfl

theorem tryCatch_apply (i : Inspection α) (h : Failure → Inspection α) :
    tryCatch i h s = (i s).bind fun (r, s') =>
      match r with
      | .ok a => .done (.ok a, s')
      | .error e => h e s' := by
  show Dialogue.bind _ _ = _
  congr 1
  funext x
  rcases x with ⟨r | r, s'⟩ <;> rfl

/-- One inspection after another: the second begins with what the first found out. -/
theorem hold_bind (i : Inspection α) (f : α → Inspection β) :
    hold host s (i >>= f) =
      match outcome host s i with
      | .ok a =>
        let (lines, r) := hold host (after host s i) (f a)
        (transcript host s i ++ lines, r)
      | .error e => (transcript host s i, .error e, after host s i) := by
  rw [hold, bind_apply, Dialogue.run_bind]
  unfold outcome after transcript hold
  rcases Dialogue.run host (i s) with ⟨lines, r | r, s'⟩
  · simp [Dialogue.run]
  · rfl

/-- An inspection with a handler: a failure is handled with what is known by then. -/
theorem hold_tryCatch (i : Inspection α) (h : Failure → Inspection α) :
    hold host s (tryCatch i h) =
      match outcome host s i with
      | .ok a => (transcript host s i, .ok a, after host s i)
      | .error e =>
        let (lines, r) := hold host (after host s i) (h e)
        (transcript host s i ++ lines, r) := by
  rw [hold, tryCatch_apply, Dialogue.run_bind]
  unfold outcome after transcript hold
  rcases Dialogue.run host (i s) with ⟨lines, r | r, s'⟩
  · rfl
  · simp [Dialogue.run]

theorem transcript_bind (i : Inspection α) (f : α → Inspection β) :
    transcript host s (i >>= f) =
      transcript host s i ++ match outcome host s i with
        | .ok a => transcript host (after host s i) (f a)
        | .error _ => [] := by
  rw [transcript, hold_bind]
  cases outcome host s i with
  | ok a => rfl
  | error e => exact (List.append_nil _).symm

theorem transcript_tryCatch (i : Inspection α) (h : Failure → Inspection α) :
    transcript host s (tryCatch i h) =
      transcript host s i ++ match outcome host s i with
        | .ok _ => []
        | .error e => transcript host (after host s i) (h e) := by
  rw [transcript, hold_tryCatch]
  cases outcome host s i with
  | ok a => exact (List.append_nil _).symm
  | error e => rfl

theorem outcome_bind (i : Inspection α) (f : α → Inspection β) :
    outcome host s (i >>= f) =
      outcome host s i >>= fun a => outcome host (after host s i) (f a) := by
  rw [outcome, hold_bind]
  cases outcome host s i <;> rfl

theorem after_bind (i : Inspection α) (f : α → Inspection β) :
    after host s (i >>= f) =
      match outcome host s i with
      | .ok a => after host (after host s i) (f a)
      | .error _ => after host s i := by
  rw [after, hold_bind]
  cases outcome host s i <;> rfl

theorem outcome_tryCatch (i : Inspection α) (h : Failure → Inspection α) :
    outcome host s (tryCatch i h) =
      match outcome host s i with
      | .ok a => .ok a
      | .error e => outcome host (after host s i) (h e) := by
  rw [outcome, hold_tryCatch]
  cases outcome host s i <;> rfl

theorem after_tryCatch (i : Inspection α) (h : Failure → Inspection α) :
    after host s (tryCatch i h) =
      match outcome host s i with
      | .ok _ => after host s i
      | .error e => after host (after host s i) (h e) := by
  rw [after, hold_tryCatch]
  cases outcome host s i <;> rfl

end

/-! ## Inspections that only look at their context -/

/-- An inspection built from questions, reports, failures and the facts of its context. What it
reports helps in finding a mistake, or, if it `warns`, is a warning. -/
inductive Composed (warns : Bool) (context : Option Package) :
    {α : Type} → Inspection α → Prop where
  | pure {α : Type} (a : α) : Composed warns context (pure a)
  | ask (q : Host.Query) : Composed warns context (ask q)
  | answer (q : Host.Query) : Composed warns context (answer q)
  | report (e : Log.Event) (h : e.level = .debug ∨ warns = true ∧ e.level = .warn) :
    Composed warns context (report e)
  | throw {α : Type} (f : Failure) : Composed warns context (throw f : Inspection α)
  | facts (p : Package) (h : context = some p) : Composed warns context p.facts
  | bind {α β : Type} {i : Inspection α} {f : α → Inspection β} (hi : Composed warns context i)
      (hf : ∀ a, Composed warns context (f a)) : Composed warns context (i >>= f)
  | tryCatch {α : Type} {i : Inspection α} {h : Failure → Inspection α}
      (hi : Composed warns context i) (hh : ∀ e, Composed warns context (h e)) :
      Composed warns context (tryCatch i h)

namespace Composed

variable {warns : Bool} {context : Option Package}

theorem ofFault (r : Except Condition.Fault α) : Composed warns context (ofFault r) := by
  cases r with
  | ok a => exact .pure a
  | error f => exact .throw _

theorem ite {p : Prop} [Decidable p] {i j : Inspection α} (hi : Composed warns context i)
    (hj : Composed warns context j) : Composed warns context (if p then i else j) := by
  split
  · exact hi
  · exact hj

theorem readFacts (p : Package) : Composed warns context p.readFacts := by
  unfold Package.readFacts
  refine .bind (.ask _) fun content => .ite (.pure _) ?_
  refine .bind (.answer _) fun r => ?_
  split
  · exact .pure _
  · exact .pure _
  · exact .throw _

variable {host : Host.Fixed}

/-- Without a context, the facts known neither matter nor change. -/
theorem stateless {i : Inspection α} (h : Composed warns none i) :
    ∀ s, outcome host s i = outcome host none i ∧ after host s i = s := by
  induction h with
  | pure a => exact fun _ => ⟨rfl, rfl⟩
  | ask q => exact fun _ => ⟨rfl, rfl⟩
  | answer q => exact fun _ => ⟨rfl, rfl⟩
  | report e h => exact fun _ => ⟨rfl, rfl⟩
  | throw f => exact fun _ => ⟨rfl, rfl⟩
  | facts p h => cases h
  | @bind _ _ i f _ _ ih ih' =>
    intro s
    rw [outcome_bind, outcome_bind, after_bind, (ih s).1, (ih s).2, (ih none).2]
    cases outcome host none i with
    | ok a => exact ih' a s
    | error e => exact ⟨rfl, rfl⟩
  | @tryCatch _ i h _ _ ih ih' =>
    intro s
    rw [outcome_tryCatch, outcome_tryCatch, after_tryCatch, (ih s).1, (ih s).2, (ih none).2]
    cases outcome host none i with
    | ok a => exact ⟨rfl, rfl⟩
    | error e => exact ih' e s

end Composed

variable {host : Host.Fixed}

theorem outcome_facts_none (p : Package) :
    outcome host none p.facts = outcome host none p.readFacts := by
  unfold Package.facts
  rw [outcome_bind]
  show outcome host none (p.readFacts >>= _) = _
  rw [outcome_bind]
  cases outcome host none p.readFacts <;> rfl

theorem after_facts_none (p : Package) :
    after host none p.facts = (outcome host none p.readFacts).toOption := by
  have hread : Composed false none p.readFacts := .readFacts p
  have hr : after host none p.readFacts = none := (hread.stateless none).2
  unfold Package.facts
  rw [after_bind]
  show after host none (p.readFacts >>= _) = _
  rw [after_bind, hr]
  cases outcome host none p.readFacts <;> rfl

/-- What may be known some time after the facts known were `s₀`: the same, or, where nothing was
known, the facts of the context. -/
def Since (host : Host.Fixed) (context : Option Package) (s₀ s : Option Facts) : Prop :=
  s = s₀ ∨ s₀ = none ∧
    ∃ p f, context = some p ∧ outcome host none p.readFacts = .ok f ∧ s = some f

variable {context : Option Package} {s₀ : Option Facts}

theorem Since.refl : Since host context s₀ s₀ := .inl rfl

/-- The facts of the context are the same at any time. -/
theorem steady_facts {p : Package} (hp : context = some p) {s : Option Facts}
    (hs : Since host context s₀ s) :
    outcome host s p.facts = outcome host s₀ p.facts ∧
      Since host context s₀ (after host s p.facts) := by
  rcases hs with rfl | ⟨rfl, p', f, hp', hf, rfl⟩
  · refine ⟨rfl, ?_⟩
    cases s with
    | some f => exact .refl
    | none =>
      rw [after_facts_none]
      cases hf : outcome host none p.readFacts with
      | error e => exact .refl
      | ok f => exact .inr ⟨rfl, p, f, hp, hf, rfl⟩
  · cases hp.symm.trans hp'
    rw [outcome_facts_none, hf]
    exact ⟨rfl, .inr ⟨rfl, p, f, hp, hf, rfl⟩⟩

namespace Composed

/-- The facts that become known on the way do not change what comes of an inspection. -/
theorem steady {i : Inspection α} (h : Composed warns context i) :
    ∀ s, Since host context s₀ s →
      outcome host s i = outcome host s₀ i ∧ Since host context s₀ (after host s i) := by
  induction h with
  | pure a => exact fun _ hs => ⟨rfl, hs⟩
  | ask q => exact fun _ hs => ⟨rfl, hs⟩
  | answer q => exact fun _ hs => ⟨rfl, hs⟩
  | report e h => exact fun _ hs => ⟨rfl, hs⟩
  | throw f => exact fun _ hs => ⟨rfl, hs⟩
  | facts p h => exact fun _ hs => steady_facts h hs
  | @bind _ _ i f _ _ ih ih' =>
    intro s hs
    obtain ⟨ho, ha⟩ := ih s hs
    obtain ⟨-, ha₀⟩ := ih s₀ .refl
    rw [outcome_bind, outcome_bind, after_bind, ho]
    cases outcome host s₀ i with
    | error e => exact ⟨rfl, ha⟩
    | ok a => exact ⟨(ih' a _ ha).1.trans (ih' a _ ha₀).1.symm, (ih' a _ ha).2⟩
  | @tryCatch _ i h _ _ ih ih' =>
    intro s hs
    obtain ⟨ho, ha⟩ := ih s hs
    obtain ⟨-, ha₀⟩ := ih s₀ .refl
    rw [outcome_tryCatch, outcome_tryCatch, after_tryCatch, ho]
    cases outcome host s₀ i with
    | ok a => exact ⟨rfl, ha⟩
    | error e => exact ⟨(ih' e _ ha).1.trans (ih' e _ ha₀).1.symm, (ih' e _ ha).2⟩

/-- The results of two parts compose as if the second had been obtained alone. -/
theorem outcome_bind {i : Inspection α} {f : α → Inspection β} (hi : Composed warns context i)
    (hf : ∀ a, Composed warns context (f a)) :
    outcome host s₀ (i >>= f) = outcome host s₀ i >>= fun a => outcome host s₀ (f a) := by
  rw [Inspection.outcome_bind]
  refine congrArg (outcome host s₀ i >>= ·) (funext fun a => ?_)
  exact ((hf a).steady _ (hi.steady s₀ .refl).2).1

/-- A failure is handled as if nothing had been found out before it. -/
theorem outcome_tryCatch {i : Inspection α} {h : Failure → Inspection α}
    (hi : Composed warns context i) (hh : ∀ e, Composed warns context (h e)) :
    outcome host s₀ (MonadExcept.tryCatch i h) =
      match outcome host s₀ i with
      | .ok a => .ok a
      | .error e => outcome host s₀ (h e) := by
  rw [Inspection.outcome_tryCatch]
  cases outcome host s₀ i with
  | ok a => rfl
  | error e => exact ((hh e).steady _ (hi.steady s₀ .refl).2).1

/-- Such an inspection reports no error. -/
theorem quiet {i : Inspection α} (h : Composed warns context i) :
    Obeys Log.quiet i (fun _ => True) := by
  induction h with
  | pure a => exact .pure trivial
  | ask q => exact .asks trivial
  | answer q => exact .answers trivial
  | report e h =>
    refine .report fun herror : e.level = .error => ?_
    rcases h with h | ⟨-, h⟩
    · cases h.symm.trans herror
    · cases h.symm.trans herror
  | throw f => exact .throw f
  | facts p h => exact .facts trivial fun _ => trivial
  | bind _ _ ih ih' => exact .bind ih fun a _ => ih' a
  | tryCatch _ _ ih ih' => exact .tryCatch ih ih'

end Composed

end Inspection

end PluginAudit
