import MarkupHtml.Pass.Code
import MarkupHtml.Proofs.Html.Names
import MarkupHtml.Proofs.Html.Notes
import MarkupHtml.Proofs.Html.Reader
import MarkupHtml.Proofs.Html.TagBalance
import MarkupHtml.Proofs.Number

namespace MarkupHtml

def isTagMark (c : Char) : Bool := c == '<' || c == '>'

/-- Whether a name can stand in a tag without opening or closing one. -/
def isTagless (name : String) : Bool := name.toList.all (!isTagMark ·)

namespace Event

def content : Event → List Char
  | .str text => text.toList
  | .codeBlock _ code _ => code.toList
  | .math _ source _ => source.toList
  | _ => []

def isProse : Event → Bool
  | .start .. | .stop _ | .str _ | .codeBlock .. | .math .. => true
  | _ => false

def tagless : Event → Bool
  | .start (.other name) a => isTagless name && a.keys.all isTagless
  | .start _ a | .codeBlock _ _ a | .math _ _ a => a.keys.all isTagless
  | .stop (.other name) => isTagless name
  | _ => true

end Event

/-- The note that is defined inside some containers. -/
def openNote? (outer : List Container) : Option String := outer.findSome? Container.noteLabel?

/-- What stands in the definitions of a note, or outside all definitions. -/
def contentIn (note : Option String) (outer : List Container) : List Event → List Char
  | [] => []
  | e :: es =>
    (if openNote? outer = note then e.content else []) ++ contentIn note (openFrom outer [e]) es

/-- What stands outside all definitions, and then what stands in those of each note, in the order
of their numbers. -/
def documentText (es : List Event) : List Char :=
  contentIn none [] es ++ (Html.noteLabels es).flatMap fun label => contentIn (some label) [] es

theorem isTagless_append (s t : String) : isTagless (s ++ t) = (isTagless s && isTagless t) := by
  rw [isTagless, String.toList_append, List.all_append]
  rfl

theorem isTagless_text (n : Number) : isTagless n.text = true := by
  refine Number.all_text (fun c hc => ?_) (by decide) n
  rw [Bool.not_eq_true', isTagMark, Bool.or_eq_false_iff, beq_eq_false_iff_ne, beq_eq_false_iff_ne]
  constructor <;>
    · rintro rfl
      cases hc

theorem Event.isTagless_of_mem_names {e : Event} (hp : e.isProse = true) (h : e.tagless = true) :
    ∀ name ∈ e.names, isTagless name = true := by
  cases e with
  | start c a =>
    cases c with
    | other name =>
      obtain ⟨hname, hkeys⟩ := Bool.and_eq_true_iff.1 h
      exact List.forall_mem_cons.2 ⟨hname, List.all_eq_true.1 hkeys⟩
    | _ => exact List.all_eq_true.1 h
  | stop c =>
    cases c with
    | other name => exact List.forall_mem_singleton.2 h
    | _ => exact List.forall_mem_nil _
  | codeBlock | math => exact List.all_eq_true.1 h
  | str => exact List.forall_mem_nil _
  | _ => cases hp

namespace Html

def Piece.content : Piece → List Char
  | .text content => content.toList
  | _ => []

def Piece.tagless : Piece → Bool
  | .freshLine | .text _ => true
  | .opening tag attributes => isTagless tag && attributes.all (isTagless ·.1)
  | .closing tag => isTagless tag
  | .raw content => content == "\n"

/-- Wherever some pieces are written, they read as a text. -/
def ShowsAs (ps : List Piece) (t : List Char) : Prop :=
  ∀ b : Buffer, ∃ s, (b.addAll ps).text = b.text ++ s ∧ Shows s.toList t

theorem showsAs_nil : ShowsAs [] [] := fun _ => ⟨"", String.append_empty.symm, shows_nil⟩

theorem ShowsAs.append {ps qs : List Piece} {t u : List Char} (h : ShowsAs ps t)
    (h' : ShowsAs qs u) : ShowsAs (ps ++ qs) (t ++ u) := by
  intro b
  obtain ⟨s, hs, ht⟩ := h b
  obtain ⟨s', hs', hu⟩ := h' (b.addAll ps)
  refine ⟨s ++ s', ?_, ?_⟩
  · rw [Buffer.addAll_append, hs', hs, String.append_assoc]
  · rw [String.toList_append]
    exact ht.append hu

theorem showsAs_raw {s : String} {t : List Char} (h : Shows s.toList t) :
    ShowsAs [.raw s] t := fun _ => ⟨s, rfl, h⟩

theorem not_mem_of_isTagless {name : String} (h : isTagless name = true) :
    '>' ∉ name.toList := by
  intro hin
  have hmark := List.all_eq_true.1 h '>' hin
  exact absurd hmark (by decide)

theorem not_mem_attributePairs {attributes : List (String × String)}
    (h : attributes.all (isTagless ·.1) = true) : '>' ∉ (attributePairs attributes).toList := by
  induction attributes with
  | nil => decide
  | cons p rest ih =>
    obtain ⟨key, value⟩ := p
    rw [List.all_cons, Bool.and_eq_true] at h
    have hfixed : '>' ∉ " ".toList ∧ '>' ∉ "=\"".toList ∧ '>' ∉ "\"".toList := by decide
    simp only [attributePairs, String.toList_append, List.mem_append, not_or]
    exact ⟨⟨⟨⟨⟨hfixed.1, not_mem_of_isTagless h.1⟩, hfixed.2.1⟩, not_mem_escape rfl value⟩,
      hfixed.2.2⟩, ih h.2⟩

theorem shows_render {p : Piece} (h : p.tagless = true) (b : Buffer) :
    Shows (p.render b).toList p.content := by
  have hlt : "<".toList = ['<'] ∧ "</".toList = ['<', '/'] ∧ ">".toList = ['>'] := by decide
  have hline : "\n".toList = ['\n'] := by decide
  cases p with
  | freshLine =>
    rw [Piece.render]
    split
    · exact shows_nil
    · exact shows_newline
  | opening tag attributes =>
    obtain ⟨htag, hattributes⟩ := Bool.and_eq_true_iff.1 h
    have hbody : '>' ∉ tag.toList ++ (attributePairs attributes).toList := by
      rw [List.mem_append, not_or]
      exact ⟨not_mem_of_isTagless htag, not_mem_attributePairs hattributes⟩
    simp only [Piece.render, String.toList_append, hlt, List.cons_append, List.nil_append]
    exact shows_tag hbody
  | closing tag =>
    have hbody : '>' ∉ '/' :: tag.toList := by
      rw [List.mem_cons, not_or]
      exact ⟨by decide, not_mem_of_isTagless h⟩
    simp only [Piece.render, String.toList_append, hlt, List.cons_append, List.nil_append]
    exact @shows_tag ('/' :: tag.toList) hbody
  | text content => exact shows_escape content
  | raw content =>
    obtain rfl := eq_of_beq h
    rw [Piece.render, hline]
    exact shows_newline

theorem showsAs_of_tagless {ps : List Piece} (h : ∀ p ∈ ps, p.tagless = true) :
    ShowsAs ps (ps.flatMap Piece.content) := by
  induction ps with
  | nil => exact showsAs_nil
  | cons p ps ih =>
    have hp : ShowsAs [p] p.content := fun b => ⟨_, rfl, shows_render (h p List.mem_cons_self) b⟩
    exact hp.append (ih fun q hq => h q (List.mem_cons_of_mem p hq))

theorem admits_isTagless : Admits (isTagless · = true) where
  fixed := by decide
  heading level := by
    rw [Writer.headingTag, isTagless_append, isTagless_text]
    decide

theorem tagless_of_names {p : Piece} (hn : ∀ name ∈ p.names, isTagless name = true)
    (hh : p.html ⊆ ["\n"]) : p.tagless = true := by
  cases p with
  | opening tag attributes =>
    obtain ⟨htag, hkeys⟩ := List.forall_mem_cons.1 hn
    refine Bool.and_eq_true_iff.2 ⟨htag, List.all_eq_true.2 fun p hp => ?_⟩
    exact hkeys p.1 (List.mem_map_of_mem hp)
  | closing tag => exact hn tag List.mem_cons_self
  | raw content => exact beq_iff_eq.2 (List.mem_singleton.1 (hh List.mem_cons_self))
  | freshLine | text => rfl

namespace Writer

theorem tagless_pieces (w : Writer) {e : Event} (hp : e.isProse = true) (h : e.tagless = true) :
    ∀ p ∈ w.pieces e, p.tagless = true := by
  have hhtml : e.html = [] := by
    cases e with
    | htmlInline | htmlBlock => cases hp
    | _ => rfl
  intro p hmem
  refine tagless_of_names
    (admits_isTagless.pieces w (Event.isTagless_of_mem_names hp h) p hmem) fun content hc => ?_
  have hin := w.html_pieces e (List.mem_flatMap.2 ⟨p, hmem, hc⟩)
  rwa [hhtml] at hin

theorem content_startPieces (w : Writer) (c : Container) (a : Attributes) :
    (w.startPieces c a).flatMap Piece.content = [] := by
  cases c with
  | paragraph =>
    simp only [startPieces]
    split <;> rfl
  | other name =>
    simp only [startPieces]
    split <;> rfl
  | _ => rfl

theorem content_stopPieces (w : Writer) (c : ContainerEnd) :
    (w.stopPieces c).flatMap Piece.content = [] := by
  cases c with
  | paragraph =>
    simp only [stopPieces]
    split <;> rfl
  | other name =>
    simp only [stopPieces]
    split <;> rfl
  | _ => rfl

theorem content_pieces (w : Writer) {e : Event} (hp : e.isProse = true) :
    (w.pieces e).flatMap Piece.content = e.content := by
  cases e with
  | start c a => exact content_startPieces _ c a
  | stop c => exact content_stopPieces w c
  | str text => exact List.append_nil _
  | codeBlock language code a => exact List.append_nil _
  | math kind source a => exact List.append_nil _
  | _ => cases hp

theorem showsAs_pieces (w : Writer) {e : Event} (hp : e.isProse = true)
    (h : e.tagless = true) : ShowsAs (w.pieces e) e.content := by
  rw [← content_pieces w hp]
  exact showsAs_of_tagless (tagless_pieces w hp h)

end Writer
namespace Writer

variable {w v : Writer} {outer : List Container} {e : Event} {es : List Event}

theorem openNote?_eq (h : w.target.toList = outer.filterMap Container.noteLabel?) :
    openNote? outer = w.target := by
  rw [openNote?, ← List.head?_filterMap, ← h]
  cases w.target <;> rfl

theorem target_written_eq (h : w.Inside outer)
    (ht : w.target.toList = outer.filterMap Container.noteLabel?)
    (ha : NotesApart outer (e :: es) = true) (hacc : w.Accepts e) :
    (w.written e).target.toList = (openFrom outer [e]).filterMap Container.noteLabel? := by
  rw [written_target]
  cases e with
  | start c a =>
    cases c with
    | footnote label =>
      obtain ⟨hout, _⟩ := Bool.and_eq_true_iff.1 ha
      have hnone := h.target_eq_none ((Bool.or_eq_true_iff.1 hout).resolve_left nofun)
      rw [hnone] at ht
      change [label] = label :: outer.filterMap Container.noteLabel?
      rw [← ht]
      rfl
    | _ => exact ht
  | stop k =>
    obtain ⟨c, rest, rfl, hkey⟩ : ∃ c rest, outer = c :: rest ∧ c.key = k.key := by
      have hhead := hacc.1
      rw [h.opened] at hhead
      cases outer with
      | nil => cases hhead
      | cons c rest => exact ⟨c, rest, rfl, Option.some.inj hhead⟩
    cases k with
    | footnote =>
      cases c with
      | footnote label =>
        cases hw : w.target with
        | none =>
          rw [hw] at ht
          cases ht
        | some other =>
          rw [hw] at ht
          exact (List.cons.inj ht).2
      | _ => cases hkey
    | _ => cases c <;> first | exact ht | cases hkey
  | _ => exact ht

/-- What is sent to a note, or to the main text, reads as what stands there. -/
theorem showsAs_piecesTo (h : w.Inside outer)
    (ht : w.target.toList = outer.filterMap Container.noteLabel?)
    (ha : NotesApart outer es = true) (hw : w.writeAll es = (v, none))
    (hp : ∀ e ∈ es, e.isProse = true) (hn : ∀ e ∈ es, e.tagless = true) (note : Option String) :
    ShowsAs (piecesTo note w es) (contentIn note outer es) := by
  induction es generalizing w outer with
  | nil => exact showsAs_nil
  | cons e es ih =>
    obtain ⟨u, hu, hes⟩ := writeAll_cons.1 hw
    obtain ⟨hacc, rfl⟩ := write_ok h.registered hu
    have hrest := ih (h.written hacc) (target_written_eq h ht ha hacc)
      (Bool.and_eq_true_iff.1 ha).2 hes (fun e' he' => hp e' (List.mem_cons_of_mem e he'))
      (fun e' he' => hn e' (List.mem_cons_of_mem e he'))
    have hfirst := showsAs_pieces w (hp e List.mem_cons_self) (hn e List.mem_cons_self)
    rw [piecesTo, contentIn, hu]
    refine ShowsAs.append ?_ hrest
    cases hd : e.definedLabel? with
    | some label =>
      -- The item of a note goes to the note, but there is nothing to read in it.
      obtain ⟨a, rfl⟩ := Event.eq_start_of_definedLabel? hd
      have hnone : (Event.start (.footnote label) a).content = [] := rfl
      rw [hnone] at hfirst ⊢
      rw [ite_self]
      split
      · exact hfirst
      · exact showsAs_nil
    | none =>
      rw [goal_eq_target hd, openNote?_eq ht]
      split
      · exact hfirst
      · exact showsAs_nil

theorem showsAs_notesPieces {notes : List Note} {f : String → List Char}
    (h : ∀ note ∈ notes, note.defined = true ∧ Shows note.html.text.toList (f note.label))
    (n : Nat) : ShowsAs (notesPieces n notes) ((notes.map Note.label).flatMap f) := by
  induction notes generalizing n with
  | nil => exact showsAs_nil
  | cons note notes ih =>
    obtain ⟨hdefined, hshows⟩ := h note List.mem_cons_self
    rw [notesPieces, notePieces, if_pos hdefined]
    exact (showsAs_raw hshows).append
      (ih (fun other ho => h other (List.mem_cons_of_mem note ho)) (n + 1))

theorem showsAs_footerPieces {notes : List Note} {t : List Char}
    (h : ShowsAs (notesPieces 1 notes) t) (hnil : notes = [] → t = []) :
    ShowsAs (footerPieces notes) t := by
  unfold footerPieces
  split
  · next he =>
    rw [hnil (List.isEmpty_iff.1 he)]
    exact showsAs_nil
  · have hhead : ShowsAs [.freshLine, .opening "hr" [], .newline,
        .opening "aside" [("class", "footnotes"), ("role", "doc-endnotes")], .newline,
        .opening "ol" [], .newline] [] := showsAs_of_tagless (by decide)
    have htail : ShowsAs [.closing "ol", .newline, .closing "aside", .newline] [] :=
      showsAs_of_tagless (by decide)
    have hall := (hhead.append h).append htail
    rw [List.append_nil] at hall
    exact hall

theorem defined_of_isProse (hw : ({} : Writer).writeAll es = (v, none))
    (hp : ∀ e ∈ es, e.isProse = true) {note : Note} (hnote : note ∈ v.notes) :
    note.defined = true := by
  have hmem : note.label ∈ noteLabels es := labels_document hw ▸ List.mem_map_of_mem hnote
  rw [noteLabels, List.mem_eraseDups, List.mem_filterMap] at hmem
  obtain ⟨e, he, hlabel⟩ := hmem
  rw [defined_iff hw (nodup_labels hw) hnote, List.mem_filterMap]
  refine ⟨e, he, ?_⟩
  have hprose := hp e he
  cases e with
  | footnoteReference label => cases hprose
  | start c a => cases c <;> exact hlabel
  | _ => cases hlabel

/-- A document shows what stands outside its notes, and then its notes. -/
theorem showsAs_withFooter (ha : NotesApart [] es = true)
    (hw : ({} : Writer).writeAll es = (v, none)) (hp : ∀ e ∈ es, e.isProse = true)
    (hn : ∀ e ∈ es, e.tagless = true) :
    Shows v.withFooter.main.text.toList (documentText es) := by
  -- Each buffer holds nothing but what was written to it.
  have hbuffer (b : Option String) : Shows (v.buffer b).text.toList (contentIn b [] es) := by
    obtain ⟨s, hs, hshows⟩ := showsAs_piecesTo inside_nothing rfl ha hw hp hn b Buffer.empty
    rw [buffer_document hw, hs, Buffer.empty, String.empty_append]
    exact hshows
  have hnotes : ∀ note ∈ v.notes, note.defined = true ∧
      Shows note.html.text.toList (contentIn (some note.label) [] es) := by
    intro note hnote
    have hshows := hbuffer (some note.label)
    rw [buffer, note?_of_mem (nodup_labels hw) hnote] at hshows
    exact ⟨defined_of_isProse hw hp hnote, hshows⟩
  have hfooter : ShowsAs (footerPieces v.notes)
      (v.labels.flatMap fun label => contentIn (some label) [] es) := by
    refine showsAs_footerPieces
      (@showsAs_notesPieces v.notes (fun label => contentIn (some label) [] es) hnotes 1) ?_
    intro he
    rw [labels, he]
    rfl
  obtain ⟨s, hs, hshows⟩ := hfooter v.main
  have htext : v.withFooter.main.text = v.main.text ++ s := hs
  rw [htext, String.toList_append, documentText, ← labels_document hw]
  exact (hbuffer none).append hshows

theorem put_congr {ps qs : List Piece} (h : ∀ b : Buffer, b.addAll ps = b.addAll qs) :
    w.put ps = w.put qs := by
  unfold put
  split
  · rw [h]
  · simp only [Note.add, h]

theorem addAll_plainCode (code : String) (a : Attributes) (b : Buffer) :
    b.addAll [.freshLine, .raw (Pass.plainCode code a), .freshLine] =
      b.addAll [.freshLine, .opening "pre" a.texts, .opening "code" [], .text code,
        .closing "code", .closing "pre", .newline] := by
  have hclosing : ∃ s, Pass.plainCode code a = s ++ "</pre>" := ⟨_, rfl⟩
  obtain ⟨s, hs⟩ := hclosing
  have hfresh (b : Buffer) : (b.add (.raw (Pass.plainCode code a))).fresh = false := by
    have hend : ("</pre>" : String).isEmpty = false ∧ atLineStart "</pre>" = false := by decide
    rw [Buffer.fresh_eq, Buffer.text_add, Piece.render, hs, ← String.append_assoc,
      atLineStart_append, hend.1, hend.2]
    rfl
  have hsolid : Piece.freshLine ∉ [Piece.opening "pre" a.texts, .opening "code" [], .text code,
      .closing "code", .closing "pre"] := by simp
  have hcode := text_addAll (b := b.add .freshLine) (.inr hsolid)
  have hleft : (b.addAll [.freshLine, .raw (Pass.plainCode code a), .freshLine]).text =
      (b.add .freshLine).text ++ Pass.plainCode code a ++ "\n" := by
    simp only [Buffer.addAll_cons, Buffer.addAll_nil]
    rw [Buffer.text_add _ .freshLine, Buffer.text_add _ (.raw _), Piece.render, hfresh]
    rfl
  have hright : (b.addAll [.freshLine, .opening "pre" a.texts, .opening "code" [], .text code,
      .closing "code", .closing "pre", .newline]).text =
        (b.add .freshLine).text ++ Pass.plainCode code a ++ "\n" :=
    congrArg (· ++ "\n") hcode
  exact Buffer.ext (hleft.trans hright.symm)

theorem write_plainCode (h : w.Registered) {a : Attributes} (ha : a.isText = true)
    (language code : String) :
    w.write (.htmlBlock (Pass.plainCode code a) {}) = w.write (.codeBlock language code a) := by
  have hput : w.written (.htmlBlock (Pass.plainCode code a) {}) =
      w.written (.codeBlock language code a) := put_congr (addAll_plainCode code a)
  have htext : (Event.codeBlock language code a).isText = true := ha
  have hblock := @write_eq w (.htmlBlock (Pass.plainCode code a) {}) h trivial
  have hcode := @write_eq w (.codeBlock language code a) h trivial
  rw [hblock, hcode, hput, htext]
  rfl

theorem writeFrom_emit_congr {e e' : Event} {x y : Stream} (he : w.write e = w.write e')
    (hxy : ∀ w', w.write e = (w', none) → writeFrom none w' .none x = writeFrom none w' .none y) :
    writeFrom none w .none (.emit e x) = writeFrom none w .none (.emit e' y) := by
  simp only [writeFrom, accept, acceptFresh, maybeMarker_none, Bool.false_eq_true, if_false, ← he]
  cases hw : w.write e with
  | mk w' err =>
    cases err with
    | none => exact hxy w' hw
    | some err => rfl

end Writer

/-- Without a highlighter the pass over the code changes nothing that is written. -/
theorem writeFrom_highlightCode {w : Writer} (h : w.Registered) (x : Stream) :
    writeFrom none w .none (Pass.highlightCode none x) = writeFrom none w .none x := by
  induction x generalizing w with
  | done => rfl
  | fail => rfl
  | report n rest ih =>
    have hreport : (w.report n).Registered := h
    exact ih hreport
  | emit e rest ih =>
    have hrest (e' : Event) (w' : Writer) (hw : w.write e' = (w', none)) :
        writeFrom none w' .none (Pass.highlightCode none rest) = writeFrom none w' .none rest :=
      have hall : w.writeAll [e'] = (w', none) := Writer.writeAll_cons.2 ⟨w', hw, rfl⟩
      ih (h.writeAll hall)
    cases e with
    | codeBlock language code a =>
      simp only [Pass.highlightCode, Pass.writeCode, Stream.emitMade]
      split
      · next ha =>
        exact Writer.writeFrom_emit_congr (Writer.write_plainCode h ha language code) (hrest _)
      · next ha =>
        have hfault : w.write (.codeBlock language code a) = (w, some .noText) := by
          rw [@Writer.write_eq w (.codeBlock language code a) h trivial]
          exact if_neg (by simp [Event.isText, Writer.dropsAttributes, ha])
        simp only [writeFrom, accept, acceptFresh, maybeMarker_none, Bool.false_eq_true, if_false,
          hfault]
    | _ => exact Writer.writeFrom_emit_congr rfl (hrest _)

/-- Every text, all code and the source of every formula is read from the document that is written,
once and in its place, whether code is left to the writer or not. -/
theorem readText_writeHtml {es : List Event} {x : Stream} {html : SplitHtml}
    (hp : ∀ e ∈ es, e.isProse = true) (hn : ∀ e ∈ es, e.tagless = true)
    (ha : NotesApart [] es = true)
    (hx : x = .ofList es ∨ x = Pass.highlightCode none (.ofList es))
    (h : (writeHtml none x).result = .ok html) :
    readText (html.summary ++ html.rest) = withoutNewlines (documentText es) := by
  have hdirect : (writeHtml none (.ofList es)).result = .ok html := by
    rcases hx with rfl | rfl
    · exact h
    · have hsame := writeFrom_highlightCode Writer.inside_nothing.registered (.ofList es)
      exact (congrArg Prod.snd hsame).symm.trans h
  obtain ⟨v, hw, hhtml⟩ : ∃ v, ({} : Writer).writeAll es = (v, none) ∧
      html = v.withFooter.split := by
    rw [writeHtml_none_result] at hdirect
    split at hdirect
    · next v hv =>
      split at hdirect
      · cases hdirect
      · cases hdirect
        exact ⟨v, hv, rfl⟩
    · cases hdirect
  rw [hhtml, Writer.split_append]
  exact (Writer.showsAs_withFooter ha hw hp hn).readText_eq

/-- A note in the middle of a paragraph, and texts that look like tags and entities. -/
def sampleProse : List Event :=
  [.plain .paragraph, .str "a < &lt;\n", .plain (.footnote "n"), .codeBlock "" "</li>" {},
    .stop .footnote, .math .inline "x>y" {}, .stop .paragraph]

theorem readText_writeHtml_sampleProse : ∃ html,
    (writeHtml none (Pass.highlightCode none (.ofList sampleProse))).result = .ok html ∧
      readText (html.summary ++ html.rest) = "a < &lt;x>y</li>".toList := by
  refine ⟨_, rfl, ?_⟩
  rw [@readText_writeHtml sampleProse _ _ (by decide) (by decide) (by decide) (.inr rfl) rfl]
  decide

end Html
end MarkupHtml
