import MarkupHtml.Proofs.Html.Skeleton

namespace MarkupHtml

/-- The names in an event that are written as they are. -/
def Event.names : Event → List String
  | .start (.other name) a | .tag name a => name :: a.keys
  | .stop (.other name) => [name]
  | .start _ a | .image _ _ a | .codeBlock _ _ a | .math _ _ a | .htmlInline _ a | .htmlBlock _ a =>
    a.keys
  | _ => []

def Event.html : Event → List String
  | .htmlInline content _ | .htmlBlock content _ => [content]
  | _ => []

theorem Attributes.forall_mem_keys_set {q : String → Prop} {a : Attributes}
    (h : ∀ name ∈ a.keys, q name) {key : String} (hk : q key) (value : AttrValue) :
    ∀ name ∈ (a.set key value).keys, q name := by
  intro name hname
  rcases mem_keys_set.1 hname with rfl | hin
  · exact hk
  · exact h name hin

namespace Html

def Piece.names : Piece → List String
  | .opening tag attributes => tag :: attributes.map Prod.fst
  | .closing tag => [tag]
  | .freshLine | .text _ | .raw _ => []

def Piece.html : Piece → List String
  | .raw content => [content]
  | _ => []

/-- The names that the writer has of its own, those of headings apart. -/
def fixedNames : List String :=
  ["blockquote", "dl", "dt", "dd", "section", "a", "div", "p", "ol", "ul", "li", "table", "thead",
    "tbody", "tr", "th", "td", "img", "pre", "code", "span", "sup", "id", "href", "class", "style",
    "type", "start", "data-checked", "role", "alt", "src"]

/-- What holds of every name that the writer has of its own. -/
structure Admits (q : String → Prop) : Prop where
  fixed : ∀ name ∈ fixedNames, q name
  heading : ∀ level, q (Writer.headingTag level)

def Named (q : String → Prop) (ps : List Piece) : Prop := ∀ p ∈ ps, ∀ name ∈ p.names, q name

variable {q : String → Prop} {w : Writer} {a : Attributes} {tag : String}

theorem Named.append {ps qs : List Piece} (h : Named q ps) (h' : Named q qs) :
    Named q (ps ++ qs) := List.forall_mem_append.2 ⟨h, h'⟩

theorem named_nil : Named q [] := List.forall_mem_nil _

theorem named_cons {p : Piece} {ps : List Piece} :
    Named q (p :: ps) ↔ (∀ name ∈ p.names, q name) ∧ Named q ps := List.forall_mem_cons

theorem named_opening (ht : q tag) (ha : ∀ name ∈ a.keys, q name) :
    ∀ name ∈ (Piece.opening tag a.texts).names, q name := by
  rw [Piece.names, Attributes.map_fst_texts]
  exact List.forall_mem_cons.2 ⟨ht, ha⟩

theorem named_closing (ht : q tag) : ∀ name ∈ (Piece.closing tag).names, q name :=
  List.forall_mem_singleton.2 ht

namespace Writer

theorem named_block (ht : q tag) (ha : ∀ name ∈ a.keys, q name) : Named q (block tag a) :=
  named_cons.2 ⟨List.forall_mem_nil _, named_cons.2 ⟨named_opening ht ha, named_nil⟩⟩

theorem named_closeBlock (ht : q tag) : Named q (closeBlock tag) :=
  named_cons.2 ⟨List.forall_mem_nil _, named_cons.2 ⟨named_closing ht, named_cons.2
    ⟨List.forall_mem_nil _, named_nil⟩⟩⟩

theorem named_closeLine (ht : q tag) : Named q [.closing tag, .newline] :=
  named_cons.2 ⟨named_closing ht, named_cons.2 ⟨List.forall_mem_nil _, named_nil⟩⟩

end Writer

namespace Admits

variable (h : Admits q) (ha : ∀ name ∈ a.keys, q name)
include h

theorem listTag (kind : ListKind) : q (Writer.listTag kind) := by
  cases kind with
  | ordered => exact h.fixed "ol" (by decide)
  | unordered | task => exact h.fixed "ul" (by decide)

theorem cellTag (w : Writer) (head : Bool) : q (w.cellTag head) := by
  unfold Writer.cellTag
  split
  · exact h.fixed "th" (by decide)
  · exact h.fixed "td" (by decide)

include ha

theorem set {key : String} (hk : key ∈ fixedNames) (value : AttrValue) :
    ∀ name ∈ (a.set key value).keys, q name :=
  Attributes.forall_mem_keys_set ha (h.fixed key hk) value

theorem setIfSome {key : String} (hk : key ∈ fixedNames) (value : Option String) :
    ∀ name ∈ (Writer.setIfSome a key value).keys, q name := by
  cases value with
  | none => exact ha
  | some v => exact h.set ha hk v

theorem setId (id : String) : ∀ name ∈ (Writer.setId a id).keys, q name := by
  unfold Writer.setId
  split
  · exact ha
  · exact h.set ha (by decide) id

theorem listAttributes (kind : ListKind) :
    ∀ name ∈ (Writer.listAttributes a kind).keys, q name := by
  cases kind with
  | unordered => exact ha
  | task => exact h.set ha (by decide) "task-list"
  | ordered numbering start =>
    have htype := h.setIfSome ha (by decide : "type" ∈ fixedNames)
      (Writer.numberingType numbering)
    simp only [Writer.listAttributes]
    split
    · exact htype
    · exact h.set htype (by decide) start.text

theorem noteAttributes (n : Nat) : ∀ name ∈ (Writer.noteAttributes a n).keys, q name :=
  h.set (h.set (h.set ha (by decide) _) (by decide) _) (by decide) _

omit ha

theorem startPieces (w : Writer) {c : Container} (ha : ∀ name ∈ (Event.start c a).names, q name) :
    Named q (w.startPieces c a) := by
  have hfixed {tag : String} {b : Attributes} (ht : tag ∈ fixedNames)
      (hb : ∀ name ∈ b.keys, q name) : Named q (Writer.block tag b) :=
    Writer.named_block (h.fixed tag ht) hb
  cases c with
  | sect id => exact hfixed (by decide) (h.setId ha id)
  | heading level id =>
    refine (Writer.named_block (h.heading level) ?_).append (named_cons.2 ⟨?_, named_nil⟩)
    · split
      · exact ha
      · exact h.setId ha id
    · exact List.forall_mem_cons.2 ⟨h.fixed "a" (by decide),
        List.forall_mem_singleton.2 (h.fixed "href" (by decide))⟩
  | paragraph =>
    simp only [Writer.startPieces]
    split
    · exact named_nil
    · exact hfixed (by decide) ha
  | link destination =>
    exact named_cons.2 ⟨named_opening (h.fixed "a" (by decide)) (h.set ha (by decide) destination),
      named_nil⟩
  | list kind tight => exact Writer.named_block (h.listTag kind) (h.listAttributes ha kind)
  | taskListItem checked =>
    exact hfixed (by decide) (h.set (h.set ha (by decide) _) (by decide) _)
  | tableCell alignment head =>
    exact Writer.named_block (h.cellTag w head) (h.setIfSome ha (by decide) _)
  | footnote label => exact hfixed (by decide) (h.noteAttributes ha _)
  | other name =>
    obtain ⟨hname, hkeys⟩ := List.forall_mem_cons.1 ha
    simp only [Writer.startPieces]
    split
    · exact Writer.named_block hname hkeys
    · exact named_cons.2 ⟨named_opening hname hkeys, named_nil⟩
  | _ => exact hfixed (by decide) ha

theorem stopPieces (w : Writer) {c : ContainerEnd} (hc : ∀ name ∈ (Event.stop c).names, q name) :
    Named q (w.stopPieces c) := by
  cases c with
  | heading level =>
    exact named_cons.2 ⟨named_closing (h.fixed "a" (by decide)),
      Writer.named_closeLine (h.heading level)⟩
  | paragraph =>
    simp only [Writer.stopPieces]
    split
    · exact named_nil
    · exact Writer.named_closeLine (h.fixed "p" (by decide))
  | link => exact named_cons.2 ⟨named_closing (h.fixed "a" (by decide)), named_nil⟩
  | list kind => exact Writer.named_closeBlock (h.listTag kind)
  | tableCell head => exact Writer.named_closeLine (h.cellTag w head)
  | descriptionTerm => exact Writer.named_closeLine (h.fixed "dt" (by decide))
  | listItem | taskListItem => exact Writer.named_closeLine (h.fixed "li" (by decide))
  | other name =>
    have hname := List.forall_mem_singleton.1 hc
    simp only [Writer.stopPieces]
    split
    · exact Writer.named_closeLine hname
    · exact named_cons.2 ⟨named_closing hname, named_nil⟩
  | _ => exact Writer.named_closeBlock (h.fixed _ (by decide))

theorem named {ps : List Piece} (hps : ps.flatMap Piece.names ⊆ fixedNames) : Named q ps :=
  fun p hp name hname => h.fixed name (hps (List.mem_flatMap.2 ⟨p, hp, hname⟩))

theorem element {ps : List Piece} (ht : tag ∈ fixedNames) (ha : ∀ name ∈ a.keys, q name)
    (hps : ps.flatMap Piece.names ⊆ fixedNames) : Named q (.opening tag a.texts :: ps) :=
  named_cons.2 ⟨named_opening (h.fixed tag ht) ha, h.named hps⟩

theorem leafPieces (w : Writer) {e : Event} (he : ∀ name ∈ e.names, q name) :
    Named q (w.leafPieces e) := by
  have hline {ps : List Piece} (hps : Named q ps) : Named q (.freshLine :: ps) :=
    named_cons.2 ⟨List.forall_mem_nil _, hps⟩
  cases e with
  | image destination alt a =>
    exact h.element (by decide) (h.set (h.set he (by decide) alt) (by decide) destination)
      (List.nil_subset _)
  | codeBlock language code a =>
    refine hline (h.element (by decide) he ?_)
    change ["code", "code", "pre"] ⊆ fixedNames
    decide
  | math kind source a =>
    refine h.element (by decide) (h.set he (by decide) (Writer.mathClass kind)) ?_
    change ["span"] ⊆ fixedNames
    decide
  | htmlInline content a =>
    simp only [Writer.leafPieces]
    split
    · exact h.named (List.nil_subset _)
    · refine h.element (by decide) he ?_
      change ["span"] ⊆ fixedNames
      decide
  | htmlBlock content a =>
    simp only [Writer.leafPieces]
    split
    · exact h.named (List.nil_subset _)
    · refine hline (h.element (by decide) he ?_)
      change ["div"] ⊆ fixedNames
      decide
  | tag name a =>
    obtain ⟨hname, hkeys⟩ := List.forall_mem_cons.1 he
    exact hline (named_cons.2 ⟨named_opening hname hkeys, h.named (List.nil_subset _)⟩)
  | footnoteReference label =>
    refine h.named ?_
    change ["sup", "class", "a", "role", "href", "a", "sup"] ⊆ fixedNames
    decide
  | _ => exact h.named (List.nil_subset _)

theorem pieces (w : Writer) {e : Event} (he : ∀ name ∈ e.names, q name) :
    Named q (w.pieces e) := by
  cases e with
  | start c a => exact h.startPieces (w.enter c) he
  | stop c => exact h.stopPieces w he
  | footnoteReference label => exact h.leafPieces (w.register label) he
  | _ => exact h.leafPieces w he

end Admits

namespace Writer

theorem html_startPieces (w : Writer) (c : Container) (a : Attributes) :
    (w.startPieces c a).flatMap Piece.html = [] := by
  cases c with
  | paragraph =>
    simp only [startPieces]
    split <;> rfl
  | other name =>
    simp only [startPieces]
    split <;> rfl
  | _ => rfl

theorem html_stopPieces (w : Writer) (c : ContainerEnd) :
    (w.stopPieces c).flatMap Piece.html ⊆ ["\n"] := by
  cases c with
  | paragraph =>
    simp only [stopPieces]
    split
    · exact List.nil_subset _
    · exact List.Subset.refl _
  | other name =>
    simp only [stopPieces]
    split
    · exact List.Subset.refl _
    · exact List.nil_subset _
  | link => exact List.nil_subset _
  | _ => exact List.Subset.refl _

theorem html_pieces (w : Writer) (e : Event) :
    (w.pieces e).flatMap Piece.html ⊆ "\n" :: e.html := by
  cases e with
  | start c a =>
    rw [pieces, html_startPieces]
    exact List.nil_subset _
  | stop c => exact w.html_stopPieces c
  | htmlInline content a =>
    simp only [pieces, leafPieces]
    split <;> exact List.subset_cons_self ..
  | htmlBlock content a =>
    simp only [pieces, leafPieces]
    split
    · exact List.subset_cons_self ..
    · exact (List.Perm.swap "\n" content []).subset
  | codeBlock | tag => exact List.Subset.refl _
  | _ => exact List.nil_subset _

end Writer
end Html
end MarkupHtml
