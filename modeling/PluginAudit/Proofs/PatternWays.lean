import PluginAudit.Pattern.Name

/-!
# The ways in which a pattern matches

`Node.run` looks for one way in which a node matches and the rest succeeds. All the ways of a node
alone, in the order of preference, are a list (`Node.ways`), and a run takes the first of them with
which the rest succeeds (`Node.run_eq_findSome?`). What a pattern matches can so be said without the
rest: it matches a whole name if one of its ways begins at the beginning and ends at the end
(`NamePattern.MatchesWhole`).
-/

namespace PluginAudit

namespace Pattern

/-- The ways of a repetition whose body has the given ways. -/
def rounds (body : Place → List Place) (forget : Place → Place) (greedy : Bool) :
    Nat → Nat → Option Nat → Place → List Place
  | 0, _, _, p => [p]
  | fuel + 1, low, high, p =>
    if high = some 0 then [p]
    else
      let round := (body (forget p)).flatMap fun q =>
        if low = 0 ∧ q.position = p.position then []
        else rounds body forget greedy fuel (low - 1) (high.map (· - 1)) q
      if low ≠ 0 then round
      else if greedy then round ++ [p]
      else p :: round

namespace Node

/-- The places to which a node leads from a place, the preferred one first. -/
def ways (subject : Array Nat) : Node → Bool → Place → List Place
  | empty, _, p => [p]
  | unit u, forward, p =>
    (stepOver subject forward (fun v => Text.foldUnit v == Text.foldUnit u) some p).toList
  | oneOf set, forward, p => (stepOver subject forward set.admits some p).toList
  | sequence a b, forward, p =>
    if forward then (ways subject a forward p).flatMap (ways subject b forward)
    else (ways subject b forward p).flatMap (ways subject a forward)
  | choice a b, forward, p => ways subject a forward p ++ ways subject b forward p
  | group i body, forward, p =>
    (ways subject body forward p).map fun q => q.record i p.position q.position
  | look ahead negative body, _, p =>
    match (ways subject body ahead p).head?, negative with
    | some q, false => [{ q with position := p.position }]
    | none, true => [p]
    | _, _ => []
  | reference i, forward, p =>
    match p.groups[i - 1]? with
    | some (some (a, b)) => (stepOverAgain subject forward a b some p).toList
    | _ => [p]
  | start, _, p => if p.position = 0 then [p] else []
  | finish, _, p => if p.position = subject.size then [p] else []
  | boundary negated, _, p =>
    if isBoundary subject p.position != negated then [p] else []
  | repetition body low high greedy before last, forward, p =>
    rounds (ways subject body forward) (·.forget before last) greedy (low + subject.size + 1) low
      high p

end Node

/-! ## A run takes the first way that the rest agrees with -/

theorem orTry_eq_or (a : Option Place) (b : Unit → Option Place) : orTry a b = a.or (b ()) := by
  cases a <;> rfl

theorem findSome?_singleton (next : Next) (p : Place) : [p].findSome? next = next p := by
  rw [List.findSome?_cons]
  cases next p <;> rfl

theorem findSome?_toList (next : Next) (q? : Option Place) :
    q?.toList.findSome? next = q?.bind next := by
  cases q? with
  | none => rfl
  | some q => exact findSome?_singleton next q

theorem findSome?_flatMap (next : Next) (f : Place → List Place) (ps : List Place) :
    (ps.flatMap f).findSome? next = ps.findSome? fun p => (f p).findSome? next := by
  induction ps with
  | nil => rfl
  | cons p ps ih =>
    rw [List.flatMap_cons, List.findSome?_append, ih, List.findSome?_cons]
    cases (f p).findSome? next <;> rfl

theorem stepOver_eq_bind (subject : Array Nat) (forward : Bool) (test : Nat → Bool) (next : Next)
    (p : Place) :
    stepOver subject forward test next p = (stepOver subject forward test some p).bind next := by
  cases forward with
  | true =>
    simp only [stepOver]
    cases subject[p.position]? with
    | none => rfl
    | some u => cases hu : test u <;> simp [hu]
  | false =>
    simp only [stepOver]
    by_cases hp : p.position = 0
    · simp [hp]
    · cases subject[p.position - 1]? with
      | none => simp [hp]
      | some u => cases hu : test u <;> simp [hp, hu]

theorem stepOverAgain_eq_bind (subject : Array Nat) (forward : Bool) (start stop : Nat)
    (next : Next) (p : Place) :
    stepOverAgain subject forward start stop next p =
      (stepOverAgain subject forward start stop some p).bind next := by
  cases forward with
  | true =>
    simp only [stepOverAgain]
    cases sameStretch subject start p.position (stop - start) <;> rfl
  | false =>
    simp only [stepOverAgain]
    by_cases hp : p.position < stop - start
    · simp [hp]
    · cases sameStretch subject start (p.position - (stop - start)) (stop - start) <;> simp [hp]

/-- A repetition takes the first way of its rounds, if the body does so. -/
theorem iterate_eq_findSome? {run : Next → Next} {body : Place → List Place}
    (hbody : ∀ next p, run next p = (body p).findSome? next) (forget : Place → Place)
    (greedy : Bool) (next : Next) (fuel low : Nat) (high : Option Nat) (p : Place) :
    iterate run forget greedy next fuel low high p =
      (rounds body forget greedy fuel low high p).findSome? next := by
  induction fuel generalizing low high p with
  | zero => exact (findSome?_singleton next p).symm
  | succ fuel ih =>
    rw [iterate, rounds]
    by_cases hhigh : high = some 0
    · rw [if_pos hhigh, if_pos hhigh]
      exact (findSome?_singleton next p).symm
    have hround : (run (fun q =>
          if low = 0 ∧ q.position = p.position then none
          else iterate run forget greedy next fuel (low - 1) (high.map (· - 1)) q) (forget p)) =
        ((body (forget p)).flatMap fun q =>
          if low = 0 ∧ q.position = p.position then []
          else rounds body forget greedy fuel (low - 1) (high.map (· - 1)) q).findSome? next := by
      rw [hbody, findSome?_flatMap]
      congr 1
      funext q
      split
      · rfl
      · exact ih ..
    rw [if_neg hhigh, if_neg hhigh]
    dsimp only
    rw [hround]
    by_cases hlow : low = 0
    · rw [if_neg (not_not_intro hlow), if_neg (not_not_intro hlow)]
      cases greedy with
      | true =>
        rw [if_pos rfl, if_pos rfl, orTry_eq_or, List.findSome?_append, findSome?_singleton]
      | false =>
        rw [if_neg Bool.false_ne_true, if_neg Bool.false_ne_true, orTry_eq_or,
          List.findSome?_cons]
        cases next p <;> rfl
    · rw [if_pos hlow, if_pos hlow]

/-- A run takes the first way of a node with which the rest succeeds. -/
theorem Node.run_eq_findSome? (subject : Array Nat) (node : Node) (forward : Bool) (next : Next)
    (p : Place) :
    node.run subject forward next p = (node.ways subject forward p).findSome? next := by
  induction node generalizing forward next p with
  | empty => exact (findSome?_singleton next p).symm
  | unit u =>
    rw [run, ways, findSome?_toList]
    exact stepOver_eq_bind ..
  | oneOf set =>
    rw [run, ways, findSome?_toList]
    exact stepOver_eq_bind ..
  | sequence a b iha ihb =>
    have hb : (fun q => (b.ways subject forward q).findSome? next) =
      b.run subject forward next := funext fun q => (ihb forward next q).symm
    have ha : (fun q => (a.ways subject forward q).findSome? next) =
      a.run subject forward next := funext fun q => (iha forward next q).symm
    rw [run, ways]
    cases forward with
    | true => rw [if_pos rfl, if_pos rfl, findSome?_flatMap, hb, iha]
    | false =>
      rw [if_neg Bool.false_ne_true, if_neg Bool.false_ne_true, findSome?_flatMap, ha, ihb]
  | choice a b iha ihb => rw [run, ways, orTry_eq_or, List.findSome?_append, iha, ihb]
  | group i body ih =>
    rw [run, ways, ih, List.findSome?_map]
    rfl
  | look ahead negative body ih =>
    have hsome : body.run subject ahead some p = (body.ways subject ahead p).head? := by
      rw [ih]
      cases body.ways subject ahead p <;> rfl
    unfold run ways
    rw [hsome]
    cases (body.ways subject ahead p).head? with
    | none =>
      cases negative with
      | true => exact (findSome?_singleton next p).symm
      | false => rfl
    | some q =>
      cases negative with
      | true => rfl
      | false => exact (findSome?_singleton next _).symm
  | reference i =>
    rw [run, ways]
    cases p.groups[i - 1]? with
    | none => exact (findSome?_singleton next p).symm
    | some recorded =>
      cases recorded with
      | none => exact (findSome?_singleton next p).symm
      | some stretch =>
        rw [findSome?_toList]
        exact stepOverAgain_eq_bind ..
  | start =>
    rw [run, ways]
    split
    · exact (findSome?_singleton next p).symm
    · rfl
  | finish =>
    rw [run, ways]
    split
    · exact (findSome?_singleton next p).symm
    · rfl
  | boundary negated =>
    rw [run, ways]
    split
    · exact (findSome?_singleton next p).symm
    · rfl
  | repetition body low high greedy before last ih =>
    exact iterate_eq_findSome? (ih forward) ..

end Pattern

namespace NamePattern

open Pattern

/-- A text that is a pattern with a property that can be computed. -/
theorem exists_compile {text : String} {p : NamePattern → Bool}
    (h : (compile text).toOption.any p = true) :
    ∃ pattern, compile text = .ok pattern ∧ p pattern = true := by
  cases hcompile : compile text with
  | error f => simp [hcompile, Except.toOption] at h
  | ok pattern => exact ⟨pattern, rfl, by simpa [hcompile, Except.toOption] using h⟩

/-- Some way in which a pattern matches from the beginning of a name on ends at the end of it. -/
def MatchesWhole (p : NamePattern) (name : String) : Prop :=
  let subject := ((Text.units name.toList).map (·.toNat)).toArray
  ∃ q ∈ p.node.ways subject true ⟨0, List.replicate p.groups none⟩, q.position = subject.size

/-- A pattern between the two ends of a name. -/
def betweenEnds (p : NamePattern) : NamePattern :=
  ⟨.sequence .start (.sequence p.node (.sequence .finish .empty)), p.groups⟩

/-- Between the ends, a pattern matches what it matches as a whole. -/
theorem accepts_betweenEnds (p : NamePattern) (name : String) :
    p.betweenEnds.accepts name = true ↔ p.MatchesWhole name := by
  unfold accepts MatchesWhole Node.occursIn
  generalize ((Text.units name.toList).map (·.toNat)).toArray = subject
  -- only the beginning of the name gets past `start`
  have hrun (i : Nat) : p.betweenEnds.node.run subject true some ⟨i, List.replicate p.groups none⟩ =
      if i = 0 then (p.node.ways subject true ⟨i, List.replicate p.groups none⟩).findSome? fun q =>
        if q.position = subject.size then some q else none
      else none := by
    rw [← Node.run_eq_findSome?]
    rfl
  have hsome (q : Place) :
      (if q.position = subject.size then some q else none).isSome = true ↔
        q.position = subject.size := by
    split
    next h => exact iff_of_true rfl h
    next h => exact iff_of_false Bool.false_ne_true h
  rw [List.any_eq_true]
  constructor
  · rintro ⟨i, -, hi⟩
    rw [show p.betweenEnds.groups = p.groups from rfl, hrun i] at hi
    by_cases hzero : i = 0
    · rw [if_pos hzero, List.findSome?_isSome_iff] at hi
      obtain ⟨q, hq, hend⟩ := hi
      rw [hzero] at hq
      exact ⟨q, hq, (hsome q).1 hend⟩
    · rw [if_neg hzero] at hi
      cases hi
  · rintro ⟨q, hq, hend⟩
    refine ⟨0, List.mem_range.2 (Nat.succ_pos _), ?_⟩
    rw [show p.betweenEnds.groups = p.groups from rfl, hrun 0, if_pos rfl,
      List.findSome?_isSome_iff]
    exact ⟨q, hq, (hsome q).2 hend⟩

end NamePattern

end PluginAudit
