/-!
# Dialogues

A computation that asks questions about the installed game and notes what happens, without saying
where the answers come from. `Dialogue.run` holds one with fixed answers and keeps a transcript, so
that what was asked is part of the result; `Dialogue.interpret` holds one in any monad, be it a
dialogue about smaller questions or the outside world.
-/

namespace PluginAudit

/-- A computation that may ask questions `Q`, each with answers of its own kind, and make notes. -/
inductive Dialogue (Q : Type) (A : Q → Type) (N α : Type) where
  | done (a : α)
  /-- A question, and how to go on with its answer. -/
  | ask (q : Q) (next : A q → Dialogue Q A N α)
  /-- A note, and how to go on. -/
  | note (n : N) (next : Unit → Dialogue Q A N α)

namespace Dialogue

variable {Q : Type} {A : Q → Type} {N α β γ : Type}

def bind (d : Dialogue Q A N α) (f : α → Dialogue Q A N β) : Dialogue Q A N β :=
  match d with
  | done a => f a
  | ask q next => ask q fun x => (next x).bind f
  | note n next => note n fun u => (next u).bind f

instance : Monad (Dialogue Q A N) where
  pure := done
  bind := bind

/-- Going on with `done` changes nothing. -/
theorem bind_done (d : Dialogue Q A N α) : d.bind done = d := by
  induction d with
  | done a => rfl
  | ask q next ih => simp only [bind, ih]
  | note n next ih => simp only [bind, ih]

/-- Going on twice is going on with both. -/
theorem bind_assoc (d : Dialogue Q A N α) (f : α → Dialogue Q A N β) (g : β → Dialogue Q A N γ) :
    (d.bind f).bind g = d.bind fun a => (f a).bind g := by
  induction d with
  | done a => rfl
  | ask q next ih => simp only [bind, ih]
  | note n next ih => simp only [bind, ih]

instance : LawfulMonad (Dialogue Q A N) :=
  LawfulMonad.mk' _ bind_done (fun _ _ => rfl) bind_assoc

def query (q : Q) : Dialogue Q A N (A q) := ask q done

def remark (n : N) : Dialogue Q A N Unit := note n done

inductive Line (Q N : Type) where
  | asked (q : Q)
  | noted (n : N)

def Line.note? : Line Q N → Option N
  | asked _ => none
  | noted n => some n

def Line.question? : Line Q N → Option Q
  | asked q => some q
  | noted _ => none

/-- The transcript and the result of a dialogue with fixed answers. -/
def run (answer : (q : Q) → A q) : Dialogue Q A N α → List (Line Q N) × α
  | done a => ([], a)
  | ask q next =>
    let (lines, a) := run answer (next (answer q))
    (.asked q :: lines, a)
  | note n next =>
    let (lines, a) := run answer (next ())
    (.noted n :: lines, a)

/-- A dialogue in which one part follows another has their transcripts one after the other. -/
theorem run_bind (answer : (q : Q) → A q) (d : Dialogue Q A N α) (f : α → Dialogue Q A N β) :
    (d.bind f).run answer =
      ((d.run answer).1 ++ ((f (d.run answer).2).run answer).1,
        ((f (d.run answer).2).run answer).2) := by
  induction d with
  | done a => simp [bind, run]
  | ask q next ih => simp [bind, run, ih]
  | note n next ih => simp [bind, run, ih]

/-- Holds a dialogue in another monad. -/
def interpret {m : Type → Type} [Monad m] (answer : (q : Q) → m (A q)) (note : N → m Unit) :
    Dialogue Q A N α → m α
  | done a => pure a
  | ask q next => answer q >>= fun x => (next x).interpret answer note
  | .note n next => note n >>= fun u => (next u).interpret answer note

end Dialogue

end PluginAudit
