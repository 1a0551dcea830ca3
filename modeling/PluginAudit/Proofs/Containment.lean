import PluginAudit.Condition.Evaluation
import PluginAudit.Proofs.DialogueRules
import PluginAudit.Proofs.Places

/-!
# Conditions stay inside the game

The paths of a condition are untrusted. Whatever they are, and whatever a host answers as long as
the files it finds in a directory have ordinary names, only places in the data directory and in the
game are asked about; the file of the context is the one exception (`evaluate_contained`).
-/

namespace PluginAudit.Condition

open PluginAudit.Path

/-- A place in the data directory or in the game. -/
def Within (dirs : Host.Directories) (place : String) : Prop :=
  Reaches dirs.data place ∨ Reaches dirs.game place

/-- Paths of entries of a directory that have ordinary names. -/
def AreEntries (directory : String) (paths : List String) : Prop :=
  ∀ path ∈ paths, ∃ name, IsName name ∧ path = child directory (String.ofList name)

/-- Questions about places are about places inside, but the file of the context may be read as well.
The files that are found in a directory are entries of it, with ordinary names. -/
def containment (dirs : Host.Directories) (context : Option Package) :
    Rules Host.Query Host.Answer Log.Event where
  admits
    | .findFiles directory _, .ok paths => AreEntries (resolve dirs.data directory) paths
    | _, _ => True
  mayAsk
    | .findFiles directory _ => Within dirs (resolve dirs.data directory)
    | .listDirectory path => Within dirs path
    | .isPresent path => Within dirs path
    | .isFile path => Within dirs path
    | .isReadable path => Within dirs path
    | .contentOf path => Within dirs path ∨ ∃ p, context = some p ∧ path = p.path
    | .fileVersion path => Within dirs path
    | .productVersion path => Within dirs path
    | _ => True
  mayNote _ := True

open Inspection (Obeys)

variable {dirs : Host.Directories} {context : Option Package}

/-! ## The way to a place -/

theorem within_of_checkInsideData (hd : IsNormal dirs.data) {directory path : String} {u : Unit}
    (h : checkInsideData dirs directory path = .ok u) :
    Reaches dirs.data (resolve dirs.data directory) := by
  unfold checkInsideData at h
  split at h
  · exact reaches_of_isInside hd ‹_›
  · cases h

theorem within_of_insideGame (hg : IsNormal dirs.game) {rest path place : String}
    (h : insideGame dirs rest path = .ok place) : Reaches dirs.game place := by
  unfold insideGame at h
  simp only at h
  split at h
  · cases h
    exact reaches_of_isInside hg ‹_›
  · cases h

/-- A path leads to a place inside, if anywhere. -/
theorem obeys_locate (hd : IsNormal dirs.data) (hg : IsNormal dirs.game) (path : String) :
    Obeys (containment dirs context) (locate dirs path) (fun place? =>
      ∀ place, place? = some place → Within dirs place) := by
  unfold locate
  split
  · next rest _ =>
    refine .bind (.ofFault fun place h => within_of_insideGame hg h) fun place hp => ?_
    refine .bind (.asks (.inr hp)) fun present _ => .pure fun place' h => ?_
    cases present with
    | false => cases h
    | true =>
      cases h
      exact .inr hp
  · refine .bind (.ofFault fun _ h => within_of_checkInsideData hd h) fun _ hp => ?_
    refine .bind (.ask (.inl hp) fun paths h => h) fun paths hpaths => .pure fun place h => ?_
    have hplace : ∃ name, IsName name ∧
        place = child (resolve dirs.data (Path.split path).1) (String.ofList name) :=
      hpaths place (List.mem_of_mem_head? h)
    obtain ⟨name, hn, he⟩ := hplace
    rw [he]
    exact .inl (hp.child hn)

theorem obeys_matchingPaths (hd : IsNormal dirs.data) (hg : IsNormal dirs.game) (path : String) :
    Obeys (containment dirs context) (matchingPaths dirs path) (fun _ => True) := by
  unfold matchingPaths
  refine .bind (.ofFault fun _ _ => trivial) fun pattern _ => ?_
  split
  · refine .bind (.ofFault fun place h => within_of_insideGame hg h) fun place hp => ?_
    exact .bind (.asks (.inr hp)) fun _ _ => .pure trivial
  · refine .bind (.ofFault fun _ h => within_of_checkInsideData hd h) fun _ hp => ?_
    exact .asks (.inl hp)

/-! ## The functions of a condition -/

theorem obeys_fileExists (hd : IsNormal dirs.data) (hg : IsNormal dirs.game) (path : String) :
    Obeys (containment dirs context) (fileExists dirs path) (fun _ => True) := by
  unfold fileExists
  split
  · exact .bind (obeys_matchingPaths hd hg path) fun _ _ => .pure trivial
  · refine .bind (obeys_locate hd hg path) fun place? hp => ?_
    split
    · exact .pure trivial
    · next place => exact .asks (hp place rfl)

theorem obeys_isReadable (hd : IsNormal dirs.data) (hg : IsNormal dirs.game) (path : String) :
    Obeys (containment dirs context) (isReadable dirs path) (fun _ => True) := by
  refine .bind (obeys_locate hd hg path) fun place? hp => ?_
  split
  · exact .pure trivial
  · next place => exact .asks (hp place rfl)

theorem obeys_activeMatches (pattern : NamePattern) (n : Nat) (plugins : List String) :
    Obeys (containment dirs context) (activeMatches pattern n plugins) (fun _ => True) := by
  induction plugins generalizing n with
  | nil => cases n <;> exact .pure trivial
  | cons plugin plugins ih =>
    cases n with
    | zero => exact .pure trivial
    | succ n =>
      refine .bind (.ite (fun _ => .asks trivial) fun _ => .pure trivial) fun active _ => ?_
      split
      · exact ih n
      · exact ih (n + 1)

theorem obeys_hasActive (count : Nat) (text : String) :
    Obeys (containment dirs context) (hasActive count text) (fun _ => True) := by
  refine .bind (.ofFault fun _ _ => trivial) fun pattern _ => ?_
  exact .bind (.asks trivial) fun plugins _ => obeys_activeMatches pattern count plugins

theorem obeys_isActive (plugin : String) :
    Obeys (containment dirs context) (isActive plugin) (fun _ => True) :=
  .ite (fun _ => obeys_hasActive 1 plugin) fun _ => .asks trivial

theorem obeys_packageChecksum {p : Package} (h : context = some p) :
    Obeys (containment dirs context) p.checksum (fun _ => True) :=
  .bind (.facts (.inr ⟨p, h, rfl⟩) fun _ => trivial) fun _ _ => .pure trivial

theorem obeys_hasChecksum (hd : IsNormal dirs.data) (hg : IsNormal dirs.game) (path : String)
    (crc : UInt32) :
    Obeys (containment dirs context) (hasChecksum dirs context path crc) (fun _ => True) := by
  have elsewhere {place : String} (hp : Within dirs place) :
      Obeys (containment dirs context) (do
        let there : Bool ← Inspection.ask (.isFile place)
        if there then
          let content : ByteArray ← Inspection.ask (.contentOf place)
          return decide (Crc32.checksum content = crc)
        else return false) (fun _ => True) := by
    refine .bind (.asks hp) fun there _ => ?_
    split
    · exact .bind (.asks (.inl hp)) fun _ _ => .pure trivial
    · exact .pure trivial
  unfold hasChecksum
  cases context with
  | none =>
    refine .bind (obeys_locate hd hg path) fun place? hp => ?_
    split
    · exact .pure trivial
    · next place => exact elsewhere (hp place rfl)
  | some p =>
    have ofContext : Obeys (containment dirs (some p))
        (do return decide ((← p.checksum) = crc)) (fun _ => True) :=
      .bind (obeys_packageChecksum rfl) fun _ _ => .pure trivial
    simp only
    split
    · exact ofContext
    · refine .bind (obeys_locate hd hg path) fun place? hp => ?_
      split
      · exact .pure trivial
      · next place =>
        split
        · exact ofContext
        · exact elsewhere (hp place rfl)

theorem obeys_binaryVersion (hd : IsNormal dirs.data) (hg : IsNormal dirs.game) (path : String)
    {version? : String → Inspection (Option String)}
    (h : ∀ place, Within dirs place →
      Obeys (containment dirs context) (version? place) (fun _ => True)) :
    Obeys (containment dirs context) (binaryVersion dirs path version?) (fun _ => True) := by
  refine .bind (obeys_locate hd hg path) fun place? hp => ?_
  split
  · exact .pure trivial
  · next place =>
    refine .bind (.asks (hp place rfl)) fun there _ => ?_
    split
    · exact .bind (h place (hp place rfl)) fun _ _ => .pure trivial
    · exact .pure trivial

theorem obeys_versionOf (hd : IsNormal dirs.data) (hg : IsNormal dirs.game) (path : String) :
    Obeys (containment dirs context) (versionOf dirs path) (fun _ => True) := by
  unfold versionOf
  simp only
  split
  · exact obeys_binaryVersion hd hg path fun place hp => .asks hp
  · split
    · refine .bind (obeys_locate hd hg path) fun place? _ => ?_
      split
      · exact .pure trivial
      · exact .bind (.asks trivial) fun _ _ => .pure trivial
    · exact .throw _

theorem obeys_productVersionOf (hd : IsNormal dirs.data) (hg : IsNormal dirs.game)
    (path : String) :
    Obeys (containment dirs context) (productVersionOf dirs path) (fun _ => True) := by
  unfold productVersionOf
  split
  · exact obeys_binaryVersion hd hg path fun place hp => .asks hp
  · exact .throw _

theorem obeys_holds (hd : IsNormal dirs.data) (hg : IsNormal dirs.game) (c : Call) :
    Obeys (containment dirs context) (c.holds dirs context) (fun _ => True) := by
  cases c with
  | file path => exact obeys_fileExists hd hg path
  | readable path => exact obeys_isReadable hd hg path
  | active plugin => exact obeys_isActive plugin
  | many pattern => exact .bind (obeys_matchingPaths hd hg pattern) fun _ _ => .pure trivial
  | manyActive pattern => exact obeys_hasActive 2 pattern
  | isMaster plugin => exact .asks trivial
  | checksum path crc => exact obeys_hasChecksum hd hg path crc
  | version path given sign =>
    exact .bind (obeys_versionOf hd hg path) fun _ _ => .pure trivial
  | productVersion path given sign =>
    exact .bind (obeys_productVersionOf hd hg path) fun _ _ => .pure trivial

/-! ## Whole conditions -/

theorem obeys_answerCalls (hd : IsNormal dirs.data) (hg : IsNormal dirs.game) (text : List Char)
    (calls : List FunctionCall) :
    Obeys (containment dirs context) (answerCalls dirs context text calls) (fun _ => True) := by
  induction calls generalizing text with
  | nil => exact .pure trivial
  | cons call calls ih =>
    refine .bind (.ofFault fun _ _ => trivial) fun c _ => ?_
    refine .bind (obeys_holds hd hg c) fun result _ => ?_
    exact .bind (.report trivial) fun _ _ => ih _

theorem obeys_evaluate (hd : IsNormal dirs.data) (hg : IsNormal dirs.game) (condition : String) :
    Obeys (containment dirs context) (evaluate dirs context condition) (fun _ => True) := by
  have hbody : Obeys (containment dirs context)
      (evaluateBody dirs context condition) (fun _ => True) := by
    refine .bind (obeys_answerCalls hd hg _ _) fun text _ => ?_
    refine .bind (.ofFault fun _ _ => trivial) fun result _ => ?_
    exact .bind (.report trivial) fun _ _ => .pure trivial
  refine .bind (.report trivial) fun _ _ => .tryCatch hbody fun f => ?_
  split
  · exact .throw _
  · exact .throw _

/-- Whatever the text of a condition and the path of a file, and whatever is answered, only places
inside are asked about, and the file of the context. -/
theorem evaluate_contained (dirs : Host.Directories) (hd : IsNormal dirs.data)
    (hg : IsNormal dirs.game) (context : Option Package) :
    (∀ condition, Obeys (containment dirs context)
      (evaluate dirs context condition) (fun _ => True)) ∧
    ∀ path, Obeys (containment dirs none) (fileExists dirs path) (fun _ => True) :=
  ⟨obeys_evaluate hd hg, obeys_fileExists hd hg⟩

theorem evaluate_contained_usual :
    let dirs : Host.Directories := ⟨"/game/Data", "/game"⟩
    let p : Package := ⟨"/mods/a.esp"⟩
    IsNormal dirs.data ∧ IsNormal dirs.game ∧
      Obeys (containment dirs (some p))
        (evaluate dirs (some p) "file(\"../../etc/passwd\") or many(\"..//etc/.*\")")
        (fun _ => True) ∧
      Obeys (containment dirs none) (fileExists dirs "a/../../b.esp") (fun _ => True) := by
  intro dirs p
  have hd : IsNormal dirs.data := by
    show IsNormal "/game/Data"
    decide +kernel
  have hg : IsNormal dirs.game := by
    show IsNormal "/game"
    decide +kernel
  refine ⟨hd, hg, ?_, ?_⟩
  · exact (evaluate_contained dirs hd hg (some p)).1 _
  · exact (evaluate_contained dirs hd hg none).2 _

end PluginAudit.Condition
