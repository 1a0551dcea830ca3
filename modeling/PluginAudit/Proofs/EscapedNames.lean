import Mathlib.Tactic.Common
import PluginAudit.Proofs.AnchoredPatterns
import PluginAudit.Proofs.LowerCase

/-!
# Names written as patterns

In a name of letters, digits, underscores, hyphens and dots only the dots mean something else in a
pattern. With a backslash before each of them (`escape`), the name is a pattern that steps over the
characters of the name one after the other, letter case ignored (`compile_escape`).
-/

namespace PluginAudit

namespace Pattern

open Text

/-- Whether a character stands for itself in names and in patterns alike. -/
def isPlain (c : Char) : Bool := isLetter c || isDigit c || c == '_' || c == '-'

theorem isPlain_ascii {c : Char} (h : isPlain c = true) : c.toNat < 0x80 := by
  have hle {d : Char} (hd : decide (c ≤ d) = true) : c.toNat ≤ d.toNat := of_decide_eq_true hd
  simp only [isPlain, isLetter, isDigit, Bool.or_eq_true, Bool.and_eq_true, beq_iff_eq] at h
  rcases h with ((((⟨-, h⟩ | ⟨-, h⟩) | ⟨-, h⟩) | rfl) | rfl)
  · exact Nat.lt_of_le_of_lt (hle h) (by decide)
  · exact Nat.lt_of_le_of_lt (hle h) (by decide)
  · exact Nat.lt_of_le_of_lt (hle h) (by decide)
  · decide
  · decide

theorem charUnits_ascii {c : Char} (h : c.toNat < 0x80) : charUnits c = [c.toNat.toUInt16] := by
  unfold charUnits
  exact if_pos (by omega)

theorem toNat_toUInt16_ascii {n : Nat} (h : n < 0x80) : n.toUInt16.toNat = n := by
  simp only [Nat.toUInt16_eq, UInt16.toNat_ofNat']
  omega

theorem unitsOf_ascii {c : Char} (h : c.toNat < 0x80) : unitsOf c = [c.toNat] := by
  rw [unitsOf, charUnits_ascii h, List.map_singleton, toNat_toUInt16_ascii h]

theorem units_ascii {cs : List Char} (h : IsAscii cs) :
    (units cs).map (·.toNat) = cs.map (·.toNat) := by
  induction cs with
  | nil => rfl
  | cons c cs ih =>
    obtain ⟨hc, hcs⟩ := List.forall_mem_cons.1 h
    rw [units, List.flatMap_cons, charUnits_ascii hc, List.map_append, List.map_cons,
      toNat_toUInt16_ascii hc, ← units, ih hcs]
    rfl

/-! ## Reading -/

/-- The characters of a name with a backslash before each dot. -/
def escapeDots (cs : List Char) : List Char :=
  cs.flatMap fun c => if c = '.' then ['\\', '.'] else [c]

namespace Token

theorem next?_plain {c : Char} (h : isPlain c = true) (named : Bool) (cs : List Char) :
    next? named c cs = some ([.unit c.toNat], 0) := by
  unfold next?
  split
  all_goals first
    | exact absurd h (by decide)
    | skip
  rw [unitsOf_ascii (isPlain_ascii h)]
  rfl

theorem next?_dot (named : Bool) (cs : List Char) :
    next? named '\\' ('.' :: cs) = some ([.unit '.'.toNat], 1) := by
  cases named <;> rfl

/-- A name with its dots escaped is read character by character. -/
theorem readAll?_escapeDots {cs : List Char} (h : ∀ c ∈ cs, isPlain c = true ∨ c = '.')
    (named : Bool) :
    readAll? named (escapeDots cs) = some (cs.map fun c => .unit c.toNat) := by
  induction cs with
  | nil => exact readAll?.eq_1 named
  | cons c cs ih =>
    obtain ⟨hc, hcs⟩ := List.forall_mem_cons.1 h
    rw [escapeDots, List.flatMap_cons, ← escapeDots]
    by_cases hdot : c = '.'
    · subst hdot
      rw [if_pos rfl, List.cons_append, List.cons_append, List.nil_append, readAll?, next?_dot]
      dsimp only
      rw [List.drop_one, List.tail_cons, ih hcs]
      rfl
    · rw [if_neg hdot, List.singleton_append, readAll?, next?_plain (hc.resolve_right hdot)]
      dsimp only
      rw [List.drop_zero, ih hcs]
      rfl

end Token

/-! ## Putting together -/

/-- The pattern that steps over units one after the other. -/
def Node.spelling (us : List Nat) : Node :=
  us.foldr (fun u rest => .sequence (.unit u) rest) .empty

theorem Assembly.foldlM_units (names : GroupNames) (us : List Nat) (a : Assembly) :
    (us.map Token.unit).foldlM (step names) a =
      some { a with top := { a.top with
        terms := (us.map fun u => ⟨.unit u, a.groups, true⟩).reverse ++ a.top.terms } } := by
  induction us generalizing a with
  | nil => rfl
  | cons u us ih =>
    rw [List.map_cons, List.foldlM_cons]
    show (us.map Token.unit).foldlM (step names) (a.push (.unit u) true) = _
    rw [ih]
    simp [Assembly.push, Level.push]

theorem Node.ofTokens?_units (us : List Nat) :
    Node.ofTokens? (us.map Token.unit) = some (spelling us) := by
  have hnames : groupNames (us.map Token.unit) = [] := by simp [groupNames]
  unfold ofTokens?
  dsimp only
  rw [hnames, if_pos (by decide), Assembly.foldlM_units]
  show some (List.foldl (fun rest (t : Term) => Node.sequence t.node rest) Node.empty
    ((us.map fun u => ⟨.unit u, 0, true⟩).reverse ++ [])) = _
  rw [List.append_nil, List.foldl_reverse, List.foldr_map]
  rfl

/-- Units are matched from a place to the end of a subject if they are all that is left of it,
letter case ignored. -/
theorem Node.ways_spelling (subject : Array Nat) (us : List Nat) (p : Place) :
    (∃ q ∈ (spelling us).ways subject true p, q.position = subject.size) ↔
      p.position ≤ subject.size ∧
        (subject.toList.drop p.position).map foldUnit = us.map foldUnit := by
  induction us generalizing p with
  | nil =>
    show (∃ q ∈ [p], q.position = subject.size) ↔ _
    simp only [List.mem_singleton, exists_eq_left, List.map_nil, List.map_eq_nil_iff,
      List.drop_eq_nil_iff, Array.length_toList]
    omega
  | cons u us ih =>
    have hways : (spelling (u :: us)).ways subject true p =
        (stepOver subject true (fun v => foldUnit v == foldUnit u) some p).toList.flatMap
          ((spelling us).ways subject true) := rfl
    rw [hways, stepOver, if_pos rfl]
    cases hu : subject[p.position]? with
    | none =>
      have hsize : subject.size ≤ p.position := Array.getElem?_eq_none_iff.1 hu
      have hdrop : subject.toList.drop p.position = [] := List.drop_eq_nil_of_le (by simpa)
      simp [hdrop]
    | some v =>
      obtain ⟨hsize, hv⟩ := Array.getElem?_eq_some_iff.1 hu
      have hdrop : subject.toList.drop p.position =
          v :: subject.toList.drop (p.position + 1) := by
        rw [List.drop_eq_getElem_cons (by simpa), Array.getElem_toList, hv]
      rw [hdrop, List.map_cons, List.map_cons, List.cons.injEq]
      by_cases hfold : foldUnit v = foldUnit u
      · have hstep := ih { p with position := p.position + 1 }
        simp only [hfold, beq_self_eq_true, if_true, Option.toList_some, List.flatMap_singleton,
          hstep, true_and]
        exact and_congr_left fun _ => ⟨fun hle => Nat.le_of_succ_le hle, fun _ => hsize⟩
      · simp [hfold]

end Pattern

namespace NamePattern

open Pattern Text

/-- A name with a backslash before each dot. -/
def escape (name : String) : String := String.ofList (Pattern.escapeDots name.toList)

/-- A name with its dots escaped is a pattern, which accepts what is equal to the name when letter
case is ignored. -/
theorem compile_escape {name : String} (h : ∀ c ∈ name.toList, isPlain c = true ∨ c = '.') :
    ∃ p, compile (escape name) = .ok p ∧
      ∀ n : String, IsAscii n.toList →
        (p.accepts n = true ↔ lowerString n = lowerString name) := by
  have hname : IsAscii name.toList := by
    intro c hc
    rcases h c hc with hplain | rfl
    · exact isPlain_ascii hplain
    · decide
  have hread : read? (escape name).toList =
      some ⟨Node.spelling (name.toList.map (·.toNat)), 0⟩ := by
    have hunits : name.toList.map (fun c => Token.unit c.toNat) =
        (name.toList.map (·.toNat)).map Token.unit := by rw [List.map_map]; rfl
    have htokens : tokens? (escapeDots name.toList) =
        some ((name.toList.map (·.toNat)).map Token.unit) := by
      rw [tokens?, Token.readAll?_escapeDots h, hunits]
    have hgroups : groupNames ((name.toList.map (·.toNat)).map Token.unit) = [] := by
      simp [groupNames]
    rw [escape, String.toList_ofList, read?, htokens]
    show (do return (⟨← Node.ofTokens? _, _⟩ : NamePattern)) = _
    rw [Node.ofTokens?_units, hgroups]
    rfl
  refine ⟨_, (compile_eq_ok_iff (closesOwn_of_read? hread) _).2 ⟨_, hread, rfl⟩, fun n hn => ?_⟩
  rw [accepts_betweenEnds, MatchesWhole, units_ascii hn]
  dsimp only
  rw [Node.ways_spelling, lowerString_eq_iff hn hname]
  simp [Function.comp_def]

end NamePattern

end PluginAudit
