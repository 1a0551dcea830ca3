import PluginAudit.Text.Search

/-!
# Markup of metadata texts

Texts may mark words as `**bold**` and carry links `[label](url)`; a mark and its end stand on one
line. `plain` takes the marks away, links first, so that a link inside bold text and bold text
inside a label both vanish; `html` writes elements for them, bold first.
-/

namespace PluginAudit.Markup

open Text

/-- The content of bold text that begins here, and what follows it. -/
def bold? (cs : List Char) : Option (List Char × List Char) :=
  (afterStart? ['*', '*'] cs).bind (upTo? ['*', '*'])

/-- The label and the address of a link that begins here, and what follows it. -/
def link? (cs : List Char) : Option (List Char × List Char × List Char) := do
  let rest ← afterStart? ['['] cs
  let (label, rest) ← upTo? [']', '('] rest
  let (url, rest) ← upTo? [')'] rest
  return (label, url, rest)

/-- What follows bold text is shorter than the text. -/
theorem length_lt_of_bold? {cs inside rest : List Char} (h : bold? cs = some (inside, rest)) :
    rest.length < cs.length := by
  simp only [bold?, Option.bind_eq_some_iff] at h
  obtain ⟨r, hr, hu⟩ := h
  have := length_le_of_upTo? hu
  rw [afterStart?_eq_some_iff.1 hr]
  simp only [List.length_append, List.length_cons, List.length_nil]
  omega

/-- A link is its label in brackets and its address in parentheses. -/
theorem eq_of_link? {cs label url rest : List Char} (h : link? cs = some (label, url, rest)) :
    cs = '[' :: (label ++ ']' :: '(' :: (url ++ ')' :: rest)) := by
  simp only [link?, Option.bind_eq_bind, Option.bind_eq_some_iff, Option.pure_def,
    Option.some.injEq, Prod.exists, Prod.mk.injEq] at h
  obtain ⟨afterOpen, hopen, _, afterBetween, hbetween, _, _, hclose, rfl, rfl, rfl⟩ := h
  rw [afterStart?_eq_some_iff.1 hopen, eq_append_of_upTo? hbetween, eq_append_of_upTo? hclose]
  rfl

/-- What follows a link is shorter than the text. -/
theorem length_lt_of_link? {cs label url rest : List Char}
    (h : link? cs = some (label, url, rest)) : rest.length < cs.length := by
  rw [eq_of_link? h]
  simp only [List.length_append, List.length_cons]
  omega

/-- Rewrites every bold text by its content. -/
def mapBold (f : List Char → List Char) (cs : List Char) : List Char :=
  match cs with
  | [] => []
  | c :: cs =>
    match h : bold? (c :: cs) with
    | some (inside, rest) =>
      have : rest.length < cs.length + 1 := length_lt_of_bold? h
      f inside ++ mapBold f rest
    | none => c :: mapBold f cs
  termination_by cs.length

/-- Rewrites every link by its label and its address. -/
def mapLink (f : List Char → List Char → List Char) (cs : List Char) : List Char :=
  match cs with
  | [] => []
  | c :: cs =>
    match h : link? (c :: cs) with
    | some (label, url, rest) =>
      have : rest.length < cs.length + 1 := length_lt_of_link? h
      f label url ++ mapLink f rest
    | none => c :: mapLink f cs
  termination_by cs.length

@[simp] theorem mapBold_nil (f : List Char → List Char) : mapBold f [] = [] := by rw [mapBold]

@[simp] theorem mapLink_nil (f : List Char → List Char → List Char) : mapLink f [] = [] := by
  rw [mapLink]

theorem mapBold_of_some {f : List Char → List Char} {cs inside rest : List Char}
    (h : bold? cs = some (inside, rest)) : mapBold f cs = f inside ++ mapBold f rest := by
  cases cs with
  | nil => cases h
  | cons c cs =>
    rw [mapBold]
    split
    · next h' =>
      cases h.symm.trans h'
      rfl
    · next h' => cases h.symm.trans h'

theorem mapBold_of_none {f : List Char → List Char} {c : Char} {cs : List Char}
    (h : bold? (c :: cs) = none) : mapBold f (c :: cs) = c :: mapBold f cs := by
  rw [mapBold]
  split
  · next h' => cases h.symm.trans h'
  · rfl

theorem mapLink_of_some {f : List Char → List Char → List Char} {cs label url rest : List Char}
    (h : link? cs = some (label, url, rest)) : mapLink f cs = f label url ++ mapLink f rest := by
  cases cs with
  | nil => cases h
  | cons c cs =>
    rw [mapLink]
    split
    · next h' =>
      cases h.symm.trans h'
      rfl
    · next h' => cases h.symm.trans h'

theorem mapLink_of_none {f : List Char → List Char → List Char} {c : Char} {cs : List Char}
    (h : link? (c :: cs) = none) : mapLink f (c :: cs) = c :: mapLink f cs := by
  rw [mapLink]
  split
  · next h' => cases h.symm.trans h'
  · rfl

def boldElement (inside : List Char) : List Char := "<b>".toList ++ inside ++ "</b>".toList

def linkElement (label url : List Char) : List Char :=
  "<a href=\"".toList ++ url ++ "\">".toList ++ label ++ "</a>".toList

def plain (text : String) : String :=
  String.ofList (mapBold id (mapLink (fun label _ => label) text.toList))

/-- A text with elements for its marks; nothing else is escaped. -/
def html (text : String) : String :=
  String.ofList (mapLink linkElement (mapBold boldElement text.toList))

end PluginAudit.Markup
