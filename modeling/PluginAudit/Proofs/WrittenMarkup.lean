import Mathlib.Data.Bool.AllAny
import PluginAudit.Warning.Markup

/-!
# Markup as it is written

A text is written as a sequence of words, bold text and links, where bold text may hold links and
the label of a link bold text. A `Style` says what is put for bold text and for links. What the two
passes over a text find is what was written in it, so each pass changes the style of its own marks
and leaves the other's (`mapBold_render`, `mapLink_render`), and both renderings follow
(`rendered_as_written`).
-/

namespace PluginAudit.Markup

open Text

/-! ## Written texts -/

/-- Words that hold no marks. -/
structure Words where
  chars : List Char
  free : ∀ c ∈ chars, c ≠ '*' ∧ c ≠ '[' ∧ c ≠ ']'

/-- Words on one line. -/
structure LineWords extends Words where
  oneLine : ∀ c ∈ chars, isLineEnd c = false

/-- The address of a link. -/
structure Address extends LineWords where
  unbracketed : ∀ c ∈ chars, c ≠ '(' ∧ c ≠ ')'

inductive LabelPiece where
  | words (w : LineWords)
  | bold (inside : LineWords)

inductive BoldPiece where
  | words (w : LineWords)
  | link (label : LineWords) (address : Address)

inductive Piece where
  | words (w : Words)
  | bold (inside : List BoldPiece)
  | link (label : List LabelPiece) (address : Address)

/-- What is put for bold text and for links. -/
structure Style where
  bold : List Char → List Char
  link : List Char → List Char → List Char

variable (s : Style)

def LabelPiece.render : LabelPiece → List Char
  | words w => w.chars
  | bold inside => s.bold inside.chars

def BoldPiece.render : BoldPiece → List Char
  | words w => w.chars
  | link label address => s.link label.chars address.chars

def Piece.render : Piece → List Char
  | words w => w.chars
  | bold inside => s.bold (inside.flatMap (·.render s))
  | link label address => s.link (label.flatMap (·.render s)) address.chars

def render (ps : List Piece) : List Char := ps.flatMap (·.render s)

def stars (inside : List Char) : List Char := "**".toList ++ (inside ++ "**".toList)

def brackets (label url : List Char) : List Char :=
  "[".toList ++ (label ++ ("](".toList ++ (url ++ ")".toList)))

/-- A text as its author writes it. -/
def written : List Piece → List Char := render ⟨stars, brackets⟩

/-- A text with elements for bold text and links. -/
def elements : List Piece → List Char :=
  render {
    bold := fun inside => "<b>".toList ++ inside ++ "</b>".toList
    link := fun label url =>
      "<a href=\"".toList ++ url ++ "\">".toList ++ label ++ "</a>".toList }

/-- A text of which only what is to be read is left. -/
def bare : List Piece → List Char := render ⟨id, fun label _ => label⟩

/-! ## Passes -/

/-- Whether a pass over a text that begins with `cs` rewrites this to `ds` and goes on after it. -/
def Rewrites (pass : List Char → List Char) (cs ds : List Char) : Prop :=
  ∀ rest, pass (cs ++ rest) = ds ++ pass rest

namespace Rewrites

variable {pass : List Char → List Char}

theorem nil : Rewrites pass [] [] := fun _ => rfl

theorem append {cs cs' ds ds' : List Char} (h : Rewrites pass cs ds)
    (h' : Rewrites pass cs' ds') : Rewrites pass (cs ++ cs') (ds ++ ds') := by
  intro rest
  rw [List.append_assoc, h, h', List.append_assoc]

theorem flatMap {α : Type} {r r' : α → List Char} (h : ∀ a, Rewrites pass (r a) (r' a))
    (as : List α) : Rewrites pass (as.flatMap r) (as.flatMap r') := by
  induction as with
  | nil => exact nil
  | cons a as ih =>
    rw [List.flatMap_cons, List.flatMap_cons]
    exact (h a).append ih

/-- Characters at which a pass finds nothing stay. -/
theorem of_forall {cs : List Char} (h : ∀ c ∈ cs, ∀ rest, pass (c :: rest) = c :: pass rest) :
    Rewrites pass cs cs := by
  induction cs with
  | nil => exact nil
  | cons c cs ih =>
    intro rest
    rw [List.cons_append, h c List.mem_cons_self, ih fun d hd => h d (List.mem_cons_of_mem _ hd),
      List.cons_append]

theorem eq {cs ds : List Char} (h : Rewrites pass cs ds) (hnil : pass [] = []) : pass cs = ds := by
  have hrest := h []
  rwa [hnil, List.append_nil, List.append_nil] at hrest

end Rewrites

/-- Whether text is put between others whose characters have a property. -/
def Encloses (p : Char → Prop) (f : List Char → List Char) : Prop :=
  ∃ before after, (∀ c ∈ before, p c) ∧ (∀ c ∈ after, p c) ∧ ∀ cs, f cs = before ++ (cs ++ after)

theorem Encloses.forall_mem {p : Char → Prop} {f : List Char → List Char} (hf : Encloses p f)
    {cs : List Char} (h : ∀ c ∈ cs, p c) : ∀ c ∈ f cs, p c := by
  obtain ⟨before, after, hbefore, hafter, hf⟩ := hf
  rw [hf]
  exact List.forall_mem_append.2 ⟨hbefore, List.forall_mem_append.2 ⟨h, hafter⟩⟩

/-- What encloses a text by characters at which a pass finds nothing does not change with it. -/
theorem Rewrites.enclosed {pass : List Char → List Char} {p : Char → Prop}
    {f : List Char → List Char} (hf : Encloses p f)
    (hp : ∀ c, p c → ∀ rest, pass (c :: rest) = c :: pass rest) {cs ds : List Char}
    (h : Rewrites pass cs ds) : Rewrites pass (f cs) (f ds) := by
  obtain ⟨before, after, hbefore, hafter, hf⟩ := hf
  rw [hf, hf]
  exact .append (.of_forall fun c hc => hp c (hbefore c hc))
    (h.append (.of_forall fun c hc => hp c (hafter c hc)))

theorem forall_mem_flatMap {α : Type} {p : Char → Prop} {f : α → List Char} {as : List α}
    (h : ∀ a, ∀ c ∈ f a, p c) : ∀ c ∈ as.flatMap f, p c := by
  intro c hc
  obtain ⟨a, -, ha⟩ := List.mem_flatMap.1 hc
  exact h a c ha

/-! ## The pass over bold text -/

theorem mapBold_cons (f : List Char → List Char) {c : Char} (hc : c ≠ '*') (rest : List Char) :
    mapBold f (c :: rest) = c :: mapBold f rest := by
  refine mapBold_of_none ?_
  rw [bold?, afterStart?, if_neg hc.symm]
  rfl

theorem mapBold_stars (f : List Char → List Char) {inside : List Char}
    (h : ∀ c ∈ inside, c ≠ '*' ∧ isLineEnd c = false) :
    Rewrites (mapBold f) (stars inside) (f inside) := by
  intro rest
  have hstart : afterStart? ['*', '*'] (stars inside ++ rest) =
      some (inside ++ ("**".toList ++ rest)) := afterStart?_eq_some_iff.2 (by simp [stars])
  have hbold : bold? (stars inside ++ rest) = some (inside, rest) := by
    rw [bold?, hstart]
    exact upTo?_append h ['*'] rest
  exact mapBold_of_some hbold

section Bold

variable {k : List Char → List Char → List Char}

theorem mapBold_label (f : List Char → List Char) (p : LabelPiece) :
    Rewrites (mapBold f) (p.render ⟨stars, k⟩) (p.render ⟨f, k⟩) := by
  cases p with
  | words w => exact .of_forall fun c hc => mapBold_cons f (w.free c hc).1
  | bold inside =>
    exact mapBold_stars f fun c hc => ⟨(inside.free c hc).1, inside.oneLine c hc⟩

variable (hk : ∀ a : Address,
  Encloses (fun c => c ≠ '*' ∧ isLineEnd c = false) fun label => k label a.chars)

include hk

theorem free_of_mem_bold (p : BoldPiece) :
    ∀ c ∈ p.render ⟨stars, k⟩, c ≠ '*' ∧ isLineEnd c = false := by
  cases p with
  | words w => exact fun c hc => ⟨(w.free c hc).1, w.oneLine c hc⟩
  | link label address =>
    exact (hk address).forall_mem fun c hc => ⟨(label.free c hc).1, label.oneLine c hc⟩

theorem mapBold_piece (f : List Char → List Char) (p : Piece) :
    Rewrites (mapBold f) (p.render ⟨stars, k⟩) (p.render ⟨f, k⟩) := by
  cases p with
  | words w => exact .of_forall fun c hc => mapBold_cons f (w.free c hc).1
  | bold inside => exact mapBold_stars f (forall_mem_flatMap (free_of_mem_bold hk))
  | link label address =>
    exact .enclosed (hk address) (fun c hc => mapBold_cons f hc.1)
      (.flatMap (mapBold_label f) label)

/-- The pass over bold text leaves the links as they are. -/
theorem mapBold_render (f : List Char → List Char) (ps : List Piece) :
    mapBold f (render ⟨stars, k⟩ ps) = render ⟨f, k⟩ ps :=
  (Rewrites.flatMap (mapBold_piece hk f) ps).eq (mapBold_nil f)

end Bold

/-! ## The pass over links -/

theorem mapLink_cons (g : List Char → List Char → List Char) {c : Char} (hc : c ≠ '[')
    (rest : List Char) : mapLink g (c :: rest) = c :: mapLink g rest := by
  refine mapLink_of_none ?_
  rw [link?, afterStart?, if_neg hc.symm]
  rfl

theorem mapLink_brackets (g : List Char → List Char → List Char) {label : List Char}
    (hlabel : ∀ c ∈ label, c ≠ ']' ∧ isLineEnd c = false) (a : Address) :
    Rewrites (mapLink g) (brackets label a.chars) (g label a.chars) := by
  intro rest
  have hurl : ∀ c ∈ a.chars, c ≠ ')' ∧ isLineEnd c = false :=
    fun c hc => ⟨(a.unbracketed c hc).2, a.oneLine c hc⟩
  have hstart : afterStart? ['['] (brackets label a.chars ++ rest) =
      some (label ++ ("](".toList ++ (a.chars ++ (")".toList ++ rest)))) :=
    afterStart?_eq_some_iff.2 (by simp [brackets])
  have hopen : upTo? [']', '('] (label ++ ("](".toList ++ (a.chars ++ (")".toList ++ rest)))) =
      some (label, a.chars ++ (")".toList ++ rest)) := upTo?_append hlabel ['('] _
  have hclose : upTo? [')'] (a.chars ++ (")".toList ++ rest)) = some (a.chars, rest) :=
    upTo?_append hurl [] rest
  have hlink : link? (brackets label a.chars ++ rest) = some (label, a.chars, rest) := by
    simp only [link?, hstart, hopen, hclose, Option.bind_eq_bind, Option.bind_some, Option.pure_def]
  exact mapLink_of_some hlink

section Links

variable {b : List Char → List Char}

theorem mapLink_bold (g : List Char → List Char → List Char) (p : BoldPiece) :
    Rewrites (mapLink g) (p.render ⟨b, brackets⟩) (p.render ⟨b, g⟩) := by
  cases p with
  | words w => exact .of_forall fun c hc => mapLink_cons g (w.free c hc).2.1
  | link label address =>
    exact mapLink_brackets g (fun c hc => ⟨(label.free c hc).2.2, label.oneLine c hc⟩) address

variable (hb : Encloses (fun c => c ≠ '[' ∧ c ≠ ']' ∧ isLineEnd c = false) b)

include hb

theorem free_of_mem_label (p : LabelPiece) :
    ∀ c ∈ p.render ⟨b, brackets⟩, c ≠ ']' ∧ isLineEnd c = false := by
  cases p with
  | words w => exact fun c hc => ⟨(w.free c hc).2.2, w.oneLine c hc⟩
  | bold inside =>
    intro c hc
    exact (hb.forall_mem (fun c hc => ⟨(inside.free c hc).2.1, (inside.free c hc).2.2,
      inside.oneLine c hc⟩) c hc).2

theorem mapLink_piece (g : List Char → List Char → List Char) (p : Piece) :
    Rewrites (mapLink g) (p.render ⟨b, brackets⟩) (p.render ⟨b, g⟩) := by
  cases p with
  | words w => exact .of_forall fun c hc => mapLink_cons g (w.free c hc).2.1
  | bold inside =>
    exact .enclosed hb (fun c hc => mapLink_cons g hc.1) (.flatMap (mapLink_bold g) inside)
  | link label address =>
    exact mapLink_brackets g (forall_mem_flatMap (free_of_mem_label hb)) address

/-- The pass over links leaves bold text as it is. -/
theorem mapLink_render (g : List Char → List Char → List Char) (ps : List Piece) :
    mapLink g (render ⟨b, brackets⟩ ps) = render ⟨b, g⟩ ps :=
  (Rewrites.flatMap (mapLink_piece hb g) ps).eq (mapLink_nil g)

end Links

/-- Bold text and links are rendered as they were written: each by its own element, and in plain
text by what is to be read of it. -/
theorem rendered_as_written (ps : List Piece) :
    html (String.ofList (written ps)) = String.ofList (elements ps) ∧
      plain (String.ofList (written ps)) = String.ofList (bare ps) := by
  constructor
  · have hlink : ∀ a : Address,
        Encloses (fun c => c ≠ '*' ∧ isLineEnd c = false) fun l => brackets l a.chars := by
      refine fun a => ⟨"[".toList, "](".toList ++ (a.chars ++ ")".toList),
        List.all_iff_forall_prop.1 (by decide), ?_, fun _ => rfl⟩
      exact List.forall_mem_append.2 ⟨List.all_iff_forall_prop.1 (by decide),
        List.forall_mem_append.2 ⟨fun c hc => ⟨(a.free c hc).1, a.oneLine c hc⟩,
          List.all_iff_forall_prop.1 (by decide)⟩⟩
    have hbold : Encloses (fun c => c ≠ '[' ∧ c ≠ ']' ∧ isLineEnd c = false) boldElement :=
      ⟨"<b>".toList, "</b>".toList, List.all_iff_forall_prop.1 (by decide),
        List.all_iff_forall_prop.1 (by decide), fun cs => List.append_assoc _ cs _⟩
    rw [html, String.toList_ofList, written, mapBold_render hlink, mapLink_render hbold]
    rfl
  · have hlink : ∀ a : Address,
        Encloses (fun c => c ≠ '*' ∧ isLineEnd c = false) fun l => l :=
      fun _ => ⟨[], [], by simp, by simp, fun cs => (List.append_nil cs).symm⟩
    have hbold : Encloses (fun c => c ≠ '[' ∧ c ≠ ']' ∧ isLineEnd c = false) stars :=
      ⟨"**".toList, "**".toList, List.all_iff_forall_prop.1 (by decide),
        List.all_iff_forall_prop.1 (by decide), fun _ => rfl⟩
    rw [plain, String.toList_ofList, written, mapLink_render hbold, mapBold_render hlink, bare]

end PluginAudit.Markup
