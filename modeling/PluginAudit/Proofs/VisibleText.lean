import PluginAudit.Proofs.LinkPieces
import PluginAudit.Proofs.WrittenMarkup
import PluginAudit.Warning

/-!
# What is to be read of a text

A text is rendered with tags, bold text first, and in plain, links first. Without its tags the first
rendering is the second (`descriptions_agree`) unless bold text and links get in each other's way:
marks in the address of a link become tags (`descriptions_disagree`), and two stars between which a
link begins or ends become a mark in plain.
-/

namespace PluginAudit.Markup

open Text

/-! ## Tags -/

/-- A text without its tags; a tag that does not end is none. -/
def untagged (cs : List Char) : List Char :=
  match cs with
  | [] => []
  | c :: cs =>
    if c = '<' ∧ '>' ∈ cs then untagged (cs.dropWhile (· != '>')).tail else c :: untagged cs
  termination_by cs.length
  decreasing_by
  · have hle : (cs.dropWhile (· != '>')).length ≤ cs.length :=
      (List.dropWhile_sublist _).length_le
    rw [List.length_tail, List.length_cons]
    omega
  · exact Nat.lt_succ_self _

def withoutTags (text : String) : String := String.ofList (untagged text.toList)

theorem untagged_nil : untagged [] = [] := by rw [untagged]

theorem untagged_cons {c : Char} (hc : c ≠ '<') (cs : List Char) :
    untagged (c :: cs) = c :: untagged cs := by
  rw [untagged, if_neg fun h => hc h.1]

theorem untagged_append {cs : List Char} (h : ∀ c ∈ cs, c ≠ '<') (rest : List Char) :
    untagged (cs ++ rest) = cs ++ untagged rest := by
  induction cs with
  | nil => rfl
  | cons c cs ih =>
    rw [List.cons_append, untagged_cons (h c List.mem_cons_self),
      ih fun d hd => h d (List.mem_cons_of_mem _ hd), List.cons_append]

theorem untagged_tag {name : List Char} (h : ∀ c ∈ name, c ≠ '>') (rest : List Char) :
    untagged ('<' :: (name ++ '>' :: rest)) = untagged rest := by
  have hdrop : (name ++ '>' :: rest).dropWhile (· != '>') = '>' :: rest := by
    rw [List.dropWhile_append_of_pos fun c hc => bne_iff_ne.2 (h c hc)]
    rfl
  rw [untagged, if_pos ⟨rfl, by simp⟩, hdrop, List.tail_cons]

/-- A tag that may stand anywhere in a text. -/
def IsTag (t : List Char) : Prop :=
  ∃ name, t = '<' :: (name ++ ['>']) ∧
    ∀ c ∈ name, c ≠ '>' ∧ c ∉ ['[', ']', '(', ')'] ∧ isLineEnd c = false

theorem IsTag.untagged_append {t : List Char} (ht : IsTag t) (rest : List Char) :
    untagged (t ++ rest) = untagged rest := by
  obtain ⟨name, rfl, hname⟩ := ht
  rw [List.cons_append, List.append_assoc, List.singleton_append,
    untagged_tag fun c hc => (hname c hc).1]

theorem IsTag.unbracketed {t : List Char} (ht : IsTag t) :
    t ≠ [] ∧ ∀ c ∈ t, c ∉ ['[', ']', '(', ')'] ∧ isLineEnd c = false := by
  obtain ⟨name, rfl, hname⟩ := ht
  refine ⟨List.cons_ne_nil _ _, List.forall_mem_cons.2 ⟨by decide, ?_⟩⟩
  exact List.forall_mem_append.2
    ⟨fun c hc => (hname c hc).2, List.all_iff_forall_prop.1 (by decide)⟩

theorem unbracketed_of_isTag {ts : List (List Char)} (hts : ∀ t ∈ ts, IsTag t) :
    Unbracketed ts := fun t ht => (hts t ht).unbracketed

/-- The pass over links goes over a tag. -/
theorem IsTag.mapLink_append {t : List Char} (ht : IsTag t)
    (g : List Char → List Char → List Char) (cs : List Char) :
    mapLink g (t ++ cs) = t ++ mapLink g cs := by
  refine Rewrites.of_forall (fun c hc => mapLink_cons g ?_) cs
  rintro rfl
  exact (ht.unbracketed.2 _ hc).1 List.mem_cons_self

/-- Tags in the place of marks are as good as nothing in their place. -/
theorem untagged_replaceMarks {ts : List (List Char)} (hts : ∀ t ∈ ts, IsTag t) {cs : List Char}
    (hcs : ∀ c ∈ cs, c ≠ '<') (rest : List Char) :
    untagged (replaceMarks '*' ts cs ++ rest) = eraseMarks '*' ts.length cs ++ untagged rest := by
  induction cs using mark_induction '*' generalizing ts with
  | nil => rw [replaceMarks_nil, eraseMarks_nil, List.nil_append, List.nil_append]
  | mark cs ih =>
    cases ts with
    | nil => rw [replaceMarks_no, List.length_nil, eraseMarks_zero, untagged_append hcs]
    | cons t ts =>
      obtain ⟨ht, hts⟩ := List.forall_mem_cons.1 hts
      rw [replaceMarks_mark, List.length_cons, eraseMarks_mark, List.append_assoc,
        ht.untagged_append, ih hts fun c hc => hcs c (by simp [hc])]
  | cons c cs h ih =>
    rw [replaceMarks_cons h, eraseMarks_cons _ h, List.cons_append,
      untagged_cons (hcs c List.mem_cons_self),
      ih hts fun d hd => hcs d (List.mem_cons_of_mem _ hd), List.cons_append]

/-! ## Links between tags -/

theorem exists_linkElement (label : List Char) {url : List Char} (hurl : ∀ c ∈ url, c ≠ '>') :
    ∃ name, (∀ c ∈ name, c ≠ '>') ∧
      linkElement label url = '<' :: (name ++ '>' :: (label ++ "</a>".toList)) := by
  obtain ⟨name, hbefore, hname⟩ :
      ∃ name, "<a href=\"".toList = '<' :: name ∧ ∀ c ∈ name, c ≠ '>' :=
    ⟨"a href=\"".toList, by decide +kernel, List.all_iff_forall_prop.1 (by decide +kernel)⟩
  have hafter : "\">".toList = ['"', '>'] := by decide +kernel
  refine ⟨name ++ (url ++ ['"']), ?_, ?_⟩
  · exact List.forall_mem_append.2 ⟨hname, List.forall_mem_append.2 ⟨hurl, by simp⟩⟩
  · unfold linkElement
    generalize "</a>".toList = closing
    simp only [hbefore, hafter, List.append_assoc, List.cons_append, List.nil_append]

/-- Of a link, its label is left. -/
theorem untagged_linkElement (label : List Char) {url : List Char} (hurl : ∀ c ∈ url, c ≠ '>')
    (rest : List Char) :
    untagged (linkElement label url ++ rest) = untagged (label ++ ("</a>".toList ++ rest)) := by
  obtain ⟨name, hname, helement⟩ := exists_linkElement label hurl
  rw [helement, List.cons_append, List.append_assoc, List.cons_append, untagged_tag hname,
    List.append_assoc]

theorem isTag_closing : IsTag "</a>".toList :=
  ⟨"/a".toList, rfl, List.all_iff_forall_prop.1 (by decide)⟩

/-- Where the tags are on one line and the addresses of the links have no marks, what is shown of a
text is left of it without tags. -/
theorem untagged_mapLink {ts : List (List Char)} (hts : ∀ t ∈ ts, IsTag t) {cs : List Char}
    (hcs : ∀ c ∈ cs, c ≠ '<' ∧ c ≠ '>') (haddr : ∀ url ∈ addresses cs, marks '*' url = 0)
    (rest : List Char) :
    untagged (mapLink linkElement (replaceMarks '*' ts cs) ++ rest) =
      (eraseMarks (some '*') ts.length (shown cs)).reduceOption ++ untagged rest := by
  induction cs using link_induction generalizing ts with
  | nil =>
    rw [replaceMarks_nil, mapLink_nil, shown_nil, eraseMarks_nil]
    rfl
  | link cs label url after h ih =>
    rw [addresses_of_some h] at haddr
    obtain ⟨hurl, haddr⟩ := List.forall_mem_cons.1 haddr
    have hcs' := hcs
    rw [eq_of_link? h] at hcs'
    have hlabel : ∀ c ∈ label, c ≠ '<' := fun c hc => (hcs' c (by simp [hc])).1
    have haddress : ∀ c ∈ url, c ≠ '>' := fun c hc => (hcs' c (by simp [hc])).2
    have hlink : link? (replaceMarks '*' ts cs) = some (replaceMarks '*' ts label, url,
        replaceMarks '*' (ts.drop (marks '*' label)) after) := by
      rw [link?_replaceMarks (unbracketed_of_isTag hts), h]
      simp only [Option.map_some, hurl, replaceMarks_of_marks_eq_zero hurl, List.drop_zero]
    -- the marks of the label take their share of the tags, what follows the link the others
    rw [mapLink_of_some hlink, List.append_assoc, untagged_linkElement _ haddress,
      untagged_replaceMarks hts hlabel, isTag_closing.untagged_append,
      ih (fun t ht => hts t (List.mem_of_mem_drop ht)) (fun c hc => hcs' c (by simp [hc])) haddr,
      shown_of_some h, eraseMarks_cons_of_ne _ (by decide), List.reduceOption_cons_of_none,
      eraseMarks_append _ _ _ (by decide), List.reduceOption_append, List.reduceOption_cons_of_none,
      eraseMarks_map_some, reduceOption_map_some, marks_map_some, List.length_drop,
      List.append_assoc]
  | mark cs ih =>
    rw [addresses_of_none (link?_star _), addresses_of_none (link?_star _)] at haddr
    have ih := fun {ts : List (List Char)} (hts : ∀ t ∈ ts, IsTag t) =>
      ih hts (fun c hc => hcs c (by simp [hc])) haddr
    rw [shown_mark]
    cases ts with
    | nil =>
      have hnone := @ih [] hts
      rw [replaceMarks_no, List.length_nil, eraseMarks_zero] at hnone ⊢
      rw [mapLink_of_none (link?_star _), mapLink_of_none (link?_star _), List.cons_append,
        List.cons_append, untagged_cons (by decide), untagged_cons (by decide), hnone]
      rfl
    | cons t ts =>
      obtain ⟨ht, hts⟩ := List.forall_mem_cons.1 hts
      rw [replaceMarks_mark, List.length_cons, eraseMarks_mark, ht.mapLink_append,
        List.append_assoc, ht.untagged_append, ih hts]
  | cons c cs h hmark ih =>
    rw [addresses_of_none h] at haddr
    have hnone : link? (c :: replaceMarks '*' ts cs) = none := by
      rw [← replaceMarks_cons hmark, link?_replaceMarks (unbracketed_of_isTag hts), h]
      rfl
    rw [replaceMarks_cons hmark, mapLink_of_none hnone, shown_of_none h,
      eraseMarks_cons _ (not_marked_shown hmark), List.cons_append,
      untagged_cons (hcs c List.mem_cons_self).1,
      ih hts (fun d hd => hcs d (List.mem_cons_of_mem _ hd)) haddr]
    rfl

/-! ## Untangled texts -/

/-- A text in which bold text and links do not get in each other's way: the addresses of its links
have no marks, and no stars come to stand next to each other as a new mark without the links. -/
structure Untangled (cs : List Char) : Prop where
  tagFree : ∀ c ∈ cs, c ≠ '<' ∧ c ≠ '>'
  addresses : ∀ url ∈ addresses cs, marks '*' url = 0
  marks : marks '*' (unlinked cs) = marks '*' cs

instance (cs : List Char) : Decidable (Untangled cs) :=
  decidable_of_iff
    (cs.all (fun c => c ≠ '<' ∧ c ≠ '>') = true ∧
      (Markup.addresses cs).all (fun url => Markup.marks '*' url = 0) = true ∧
      Markup.marks '*' (unlinked cs) = Markup.marks '*' cs)
    ⟨fun ⟨hfree, haddr, hmarks⟩ =>
      ⟨List.all_iff_forall_prop.1 hfree, List.all_iff_forall_prop.1 haddr, hmarks⟩,
      fun h => ⟨List.all_iff_forall_prop.2 h.tagFree, List.all_iff_forall_prop.2 h.addresses,
        h.marks⟩⟩

theorem isTag_bold : IsTag "<b>".toList ∧ IsTag "</b>".toList :=
  ⟨⟨"b".toList, rfl, List.all_iff_forall_prop.1 (by decide)⟩,
    "/b".toList, rfl, List.all_iff_forall_prop.1 (by decide)⟩

/-- Without links there are as many marks as before at least. -/
theorem marks_le_unlinked {cs : List Char} (haddr : ∀ url ∈ addresses cs, marks '*' url = 0) :
    marks '*' cs ≤ marks '*' (unlinked cs) := by
  rw [← marks_shown haddr, ← reduceOption_shown]
  exact marks_le_reduceOption _

theorem untagged_line {cs : List Char} (hline : ∀ c ∈ cs, isLineEnd c = false)
    (h : Untangled cs) (rest : List Char) :
    untagged (mapLink linkElement (mapBold boldElement cs) ++ rest) =
      mapBold id (unlinked cs) ++ untagged rest := by
  have hbold : mapBold boldElement cs =
      replaceMarks '*' (tagPairs "<b>".toList "</b>".toList (marks '*' cs / 2)) cs := by
    rw [← mapBold_eq_replaceMarks _ _ hline]
    exact congrArg (mapBold · cs) (funext fun inside => List.append_assoc _ inside _)
  have hplain : mapBold id (unlinked cs) =
      eraseMarks '*' (2 * (marks '*' cs / 2)) (unlinked cs) := by
    rw [← replaceMarks_tagPairs_nil, ← h.marks,
      ← mapBold_eq_replaceMarks _ _ fun c hc => hline c (mem_of_mem_unlinked hc)]
    exact congrArg (mapBold · _) (funext fun inside => (List.append_nil inside).symm)
  have hshown : marks (some '*') (shown cs) = marks '*' (shown cs).reduceOption := by
    rw [marks_shown h.addresses, reduceOption_shown, h.marks]
  rw [hbold, hplain, untagged_mapLink (forall_mem_tagPairs isTag_bold.1 isTag_bold.2 _) h.tagFree
    h.addresses, length_tagPairs, eraseMarks_reduceOption hshown, reduceOption_shown]

theorem ne_of_isLineEnd {e : Char} (he : isLineEnd e = true) : e ≠ '*' ∧ e ≠ '<' := by
  constructor
  · rintro rfl
    cases he
  · rintro rfl
    cases he

theorem unlinked_line {e : Char} (he : isLineEnd e = true) (cs rest : List Char) :
    unlinked (cs ++ e :: rest) = unlinked cs ++ e :: unlinked rest := mapLink_line he rest _ cs

theorem Untangled.of_line {e : Char} (he : isLineEnd e = true) {cs rest : List Char}
    (h : Untangled (cs ++ e :: rest)) : Untangled cs ∧ Untangled rest := by
  obtain ⟨hfree, haddr, hmarks⟩ := h
  rw [addresses_line he, List.forall_mem_append] at haddr
  rw [unlinked_line he, marks_append _ _ (ne_of_isLineEnd he).1,
    marks_append _ _ (ne_of_isLineEnd he).1] at hmarks
  have hle := marks_le_unlinked haddr.1
  have hle' := marks_le_unlinked haddr.2
  exact ⟨⟨fun c hc => hfree c (by simp [hc]), haddr.1, by omega⟩,
    ⟨fun c hc => hfree c (by simp [hc]), haddr.2, by omega⟩⟩

/-- Without its tags, the rendering of an untangled text is the plain one. -/
theorem untagged_html {cs : List Char} (h : Untangled cs) :
    untagged (mapLink linkElement (mapBold boldElement cs)) = mapBold id (unlinked cs) := by
  induction hlength : cs.length using Nat.strongRecOn generalizing cs with
  | ind n ih =>
    subst hlength
    -- marks pair up on each line, so the renderings are compared line by line
    rcases exists_line cs with hline | ⟨line, e, rest, rfl, hline, he⟩
    · have hall := untagged_line hline h []
      rwa [untagged_nil, List.append_nil, List.append_nil] at hall
    · obtain ⟨hone, hrest⟩ := h.of_line he
      have hlt : rest.length < (line ++ e :: rest).length := by
        rw [List.length_append, List.length_cons]
        omega
      rw [mapBold_line he, mapLink_line he, untagged_line hline hone,
        untagged_cons (ne_of_isLineEnd he).2, ih _ hlt hrest rfl, unlinked_line he,
        mapBold_line he]

theorem withoutTags_html {text : String} (h : Untangled text.toList) :
    withoutTags (html text) = plain text := by
  rw [withoutTags, html, String.toList_ofList, untagged_html h]
  rfl

/-! ## Descriptions -/

/-- The warnings whose descriptions are renderings of a text, with what stands before them. -/
inductive Describes (text : String) : String → Warning → Prop where
  | message (plugin : String) (m : Metadata.Message)
    (h : Warning.substitute m.content.resolve (m.subs.getD []) = text) :
    Describes text (plugin ++ ": ") (.ofMessage plugin m)
  | missing (plugin : String) (ref : Metadata.FileRef)
    (h : Warning.describe ref (fun label =>
      plugin ++ " requires '" ++ label ++ "' to be installed, but it is missing.") = text) :
    Describes text "" (.ofMissing plugin ref)
  | incompatible (plugin : String) (ref : Metadata.FileRef)
    (h : Warning.describe ref (fun label =>
      plugin ++ " is incompatible with '" ++ label ++ "', but both are present.") = text) :
    Describes text "" (.ofIncompatible plugin ref)

theorem Describes.eq {text before : String} {w : Warning} (h : Describes text before w) :
    w.short = before ++ plain text ∧ w.full = before ++ html text := by
  cases h with
  | message plugin m h =>
    subst h
    exact ⟨rfl, rfl⟩
  | missing plugin ref h =>
    subst h
    exact ⟨String.empty_append.symm, String.empty_append.symm⟩
  | incompatible plugin ref h =>
    subst h
    exact ⟨String.empty_append.symm, String.empty_append.symm⟩

/-- The rendering of an untangled text says without its tags what the plain one says, and so do the
full and the short description of a warning that tells it. -/
theorem descriptions_agree (text : String) (h : Untangled text.toList) :
    withoutTags (html text) = plain text ∧
      ∀ before w, Describes text before w → (∀ c ∈ before.toList, c ≠ '<') →
        withoutTags w.full = w.short := by
  refine ⟨withoutTags_html h, fun before w hw hbefore => ?_⟩
  obtain ⟨hshort, hfull⟩ := hw.eq
  rw [hshort, hfull, ← withoutTags_html h, withoutTags, String.toList_append,
    untagged_append hbefore, String.ofList_append, String.ofList_toList, withoutTags]

theorem descriptions_agree_nested :
    let text := "**See [a](u)** and [**b**](v)"
    let w := Warning.ofMessage "A.esp" { type := .say, content := .plain text }
    Untangled text.toList ∧ Describes text "A.esp: " w ∧ (∀ c ∈ "A.esp: ".toList, c ≠ '<') ∧
      html text = "<b>See <a href=\"u\">a</a></b> and <a href=\"v\"><b>b</b></a>" ∧
      withoutTags (html text) = "See a and b" ∧ withoutTags w.full = "A.esp: See a and b" := by
  intro text w
  have h : Untangled text.toList := by decide +kernel
  have hcontent : Warning.substitute text [] = text := by decide +kernel
  have hw : Describes text "A.esp: " w := .message "A.esp" _ hcontent
  have hbefore : ∀ c ∈ "A.esp: ".toList, c ≠ '<' :=
    List.all_iff_forall_prop.1 (by decide +kernel)
  have hplain : plain text = "See a and b" := by decide +kernel
  have hshort : w.short = "A.esp: See a and b" := hw.eq.1.trans (by rw [hplain]; decide +kernel)
  obtain ⟨htext, hwarning⟩ := descriptions_agree text h
  exact ⟨h, hw, hbefore, by decide +kernel, htext.trans hplain,
    (hwarning _ w hw hbefore).trans hshort⟩

/-- Marks in an address become tags within a tag. -/
theorem descriptions_disagree :
    (∀ c ∈ "[a](x**b**y)".toList, c ≠ '<' ∧ c ≠ '>') ∧
      html "[a](x**b**y)" = "<a href=\"x<b>b</b>y\">a</a>" ∧
      withoutTags (html "[a](x**b**y)") = "by\">a" ∧ plain "[a](x**b**y)" = "a" :=
  ⟨List.all_iff_forall_prop.1 (by decide +kernel), by decide +kernel⟩

end PluginAudit.Markup
