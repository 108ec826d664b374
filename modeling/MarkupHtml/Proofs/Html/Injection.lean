import MarkupHtml.Pass.Code
import MarkupHtml.Proofs.Html.Alike
import MarkupHtml.Proofs.Html.Skeleton

namespace MarkupHtml

namespace Html

theorem keys_setIfSome_congr {a b : Attributes} (h : a.keys = b.keys) (key : String)
    (value : Option String) :
    (Writer.setIfSome a key value).keys = (Writer.setIfSome b key value).keys := by
  cases value with
  | none => exact h
  | some v => exact Attributes.keys_set_congr h key v v

theorem keys_setId_blank (a : Attributes) (id : String) :
    (Writer.setId a.blank (blankId id)).keys = (Writer.setId a id).keys := by
  unfold Writer.setId
  simp only [blankId_eq_empty_iff]
  split
  · exact a.keys_blank
  · exact Attributes.keys_set_congr a.keys_blank "id" _ _

theorem keys_listAttributes_congr {a b : Attributes} (h : a.keys = b.keys) (kind : ListKind) :
    (Writer.listAttributes a kind).keys = (Writer.listAttributes b kind).keys := by
  cases kind with
  | unordered => exact h
  | task => exact Attributes.keys_set_congr h "class" _ _
  | ordered numbering start =>
    have htype := keys_setIfSome_congr h "type" (Writer.numberingType numbering)
    simp only [Writer.listAttributes]
    split
    · exact htype
    · exact Attributes.keys_set_congr htype "start" _ _

theorem pieceMarks_opening {a b : Attributes} (h : a.keys = b.keys) (tag : String)
    (ps : List Piece) :
    pieceMarks (.opening tag a.texts :: ps) = pieceMarks (.opening tag b.texts :: ps) := by
  rw [pieceMarks_cons, pieceMarks_cons, marks_opening h]

theorem pieceMarks_block {a b : Attributes} (h : a.keys = b.keys) (tag : String) :
    pieceMarks (Writer.block tag a) = pieceMarks (Writer.block tag b) := by
  simp only [Writer.block, pieceMarks_cons, marks_opening h]

namespace Writer

theorem pieceMarks_startPieces (w : Writer) (c : Container) (a : Attributes) :
    pieceMarks (w.startPieces c.skeleton a.blank) = pieceMarks (w.startPieces c a) := by
  have ha := a.keys_blank
  cases c with
  | heading level id =>
    simp only [Container.skeleton, startPieces, pieceMarks_append]
    congr 1
    split
    · exact pieceMarks_block ha _
    · exact pieceMarks_block (keys_setId_blank a id) _
  | sect id => exact pieceMarks_block (keys_setId_blank a id) _
  | paragraph =>
    simp only [Container.skeleton, startPieces]
    split
    · rfl
    · exact pieceMarks_block ha _
  | link destination =>
    exact pieceMarks_opening (Attributes.keys_set_congr ha "href" _ _) "a" []
  | list kind tight => exact pieceMarks_block (keys_listAttributes_congr ha kind) _
  | taskListItem checked =>
    exact pieceMarks_block
      (Attributes.keys_set_congr (Attributes.keys_set_congr ha "class" _ _) "data-checked" _ _) _
  | tableCell alignment head => exact pieceMarks_block (keys_setIfSome_congr ha "style" _) _
  | footnote label =>
    exact pieceMarks_block (Attributes.keys_set_congr (Attributes.keys_set_congr
      (Attributes.keys_set_congr ha "class" _ _) "id" _ _) "role" _ _) _
  | other tag =>
    simp only [Container.skeleton, startPieces]
    split
    · exact pieceMarks_block ha tag
    · exact pieceMarks_opening ha tag []
  | _ => exact pieceMarks_block ha _

theorem pieceMarks_leafPieces (w : Writer) (e : Event) :
    pieceMarks (w.leafPieces e.skeleton) = pieceMarks (w.leafPieces e) := by
  cases e with
  | image destination alt a =>
    have halt := Attributes.keys_set_congr a.keys_blank "alt" (.text "") (.text alt)
    exact pieceMarks_opening (Attributes.keys_set_congr halt "src" _ _) "img" []
  | codeBlock language code a =>
    simp only [Event.skeleton, leafPieces, pieceMarks_cons, marks_opening a.keys_blank]
    rfl
  | math kind source a =>
    exact pieceMarks_opening (Attributes.keys_set_congr a.keys_blank "class" _ _) "span"
      [.text source, .closing "span"]
  | htmlInline content a =>
    simp only [Event.skeleton, leafPieces, Attributes.isEmpty_blank]
    split <;> simp only [pieceMarks_cons, marks_opening a.keys_blank, marks_raw]
  | htmlBlock content a =>
    simp only [Event.skeleton, leafPieces, Attributes.isEmpty_blank]
    split <;> simp only [pieceMarks_cons, marks_opening a.keys_blank, marks_raw]
  | tag name a =>
    simp only [Event.skeleton, leafPieces, pieceMarks_cons, marks_opening a.keys_blank]
  | _ => rfl

theorem enter_skeleton (w : Writer) (c : Container) : w.enter c.skeleton = w.enter c := by
  cases c <;> rfl

theorem pieceMarks_pieces (w : Writer) (e : Event) :
    pieceMarks (w.pieces e.skeleton) = pieceMarks (w.pieces e) := by
  have hleaf := pieceMarks_leafPieces w e
  cases e with
  | start c a =>
    simp only [Event.skeleton, pieces, enter_skeleton]
    exact pieceMarks_startPieces _ c a
  | stop | footnoteReference => rfl
  | _ => exact hleaf

theorem fault?_skeleton (w : Writer) (e : Event) : w.fault? e.skeleton = w.fault? e := by
  have hdrops : w.dropsAttributes e.skeleton = w.dropsAttributes e := by
    cases e with
    | start c a => cases c <;> rfl
    | _ => rfl
  have hmisfit : w.misfit? e.skeleton = w.misfit? e := by
    cases e <;> rfl
  rw [fault?, fault?, Event.isText_skeleton, hdrops, hmisfit]

end Writer

def Note.outline (note : Note) : String × Bool × List Char :=
  (note.label, note.defined, marks note.html.text)

/-- Writers that differ at most in what lies between the marks of their texts. -/
structure Writer.Resembles (w v : Writer) : Prop where
  target : w.target = v.target
  tightness : w.tightness = v.tightness
  opened : w.opened = v.opened
  tablePart : w.tablePart = v.tablePart
  main : marks w.main.text = marks v.main.text
  notes : w.notes.map Note.outline = v.notes.map Note.outline

namespace Writer

variable {w v u : Writer}

theorem Resembles.refl (w : Writer) : w.Resembles w := ⟨rfl, rfl, rfl, rfl, rfl, rfl⟩

theorem Resembles.symm (h : w.Resembles v) : v.Resembles w :=
  ⟨h.target.symm, h.tightness.symm, h.opened.symm, h.tablePart.symm, h.main.symm, h.notes.symm⟩

theorem Resembles.trans (h : w.Resembles v) (h' : v.Resembles u) : w.Resembles u :=
  ⟨h.target.trans h'.target, h.tightness.trans h'.tightness, h.opened.trans h'.opened,
    h.tablePart.trans h'.tablePart, h.main.trans h'.main, h.notes.trans h'.notes⟩

theorem Resembles.labels (h : w.Resembles v) : w.labels = v.labels := by
  have hfst := congrArg (List.map Prod.fst) h.notes
  rw [List.map_map, List.map_map] at hfst
  exact hfst

theorem Resembles.number (h : w.Resembles v) (label : String) :
    w.number label = v.number label := by
  rw [number_eq, number_eq, h.labels]

theorem outlines_map {ns ms : List Note} {f g : Note → Note}
    (hfg : ∀ n m : Note, n.outline = m.outline → (f n).outline = (g m).outline)
    (h : ns.map Note.outline = ms.map Note.outline) :
    (ns.map f).map Note.outline = (ms.map g).map Note.outline := by
  induction ns generalizing ms with
  | nil =>
    cases ms with
    | nil => rfl
    | cons m ms => cases h
  | cons n ns ih =>
    cases ms with
    | nil => cases h
    | cons m ms =>
      obtain ⟨hn, hns⟩ := List.cons.inj h
      exact congrArg₂ List.cons (hfg n m hn) (ih hns)

theorem Resembles.updateNote (h : w.Resembles v) (label : String) {f g : Note → Note}
    (hfg : ∀ n m : Note, n.outline = m.outline → (f n).outline = (g m).outline) :
    (w.updateNote label f).Resembles (v.updateNote label g) where
  target := h.target
  tightness := h.tightness
  opened := h.opened
  tablePart := h.tablePart
  main := h.main
  notes := by
    refine outlines_map ?_ h.notes
    intro n m hnm
    have hlabel : n.label = m.label := congrArg Prod.fst hnm
    rw [hlabel]
    split
    · exact hfg n m hnm
    · exact hnm

theorem outline_add {n m : Note} {ps qs : List Piece} (hnm : n.outline = m.outline)
    (hps : pieceMarks ps = pieceMarks qs) : (n.add ps).outline = (m.add qs).outline := by
  simp only [Note.outline, Prod.mk.injEq] at hnm ⊢
  obtain ⟨hlabel, hdefined, hmarks⟩ := hnm
  refine ⟨hlabel, hdefined, ?_⟩
  rw [Note.add, Note.add, marks_addAll, marks_addAll, hmarks, hps]

theorem Resembles.put (h : w.Resembles v) {ps qs : List Piece}
    (hps : pieceMarks ps = pieceMarks qs) : (w.put ps).Resembles (v.put qs) := by
  have ht := h.target
  unfold Writer.put
  cases hv : v.target with
  | none =>
    rw [hv] at ht
    simp only [ht]
    refine ⟨rfl, h.tightness, h.opened, h.tablePart, ?_, h.notes⟩
    rw [marks_addAll, marks_addAll, h.main, hps]
  | some label =>
    rw [hv] at ht
    simp only [ht]
    exact h.updateNote label fun n m hnm => outline_add hnm hps

theorem Resembles.register (h : w.Resembles v) (label : String) :
    (w.register label).Resembles (v.register label) := by
  rw [register_eq, register_eq, h.labels]
  split
  · exact h
  · refine ⟨h.target, h.tightness, h.opened, h.tablePart, h.main, ?_⟩
    rw [List.map_append, List.map_append, h.notes]

theorem Resembles.enter (h : w.Resembles v) (c : Container) :
    (w.enter c).Resembles (v.enter c) := by
  cases c with
  | list kind tight =>
    exact ⟨h.target, congrArg (tight :: ·) h.tightness, h.opened, h.tablePart, h.main, h.notes⟩
  | tableHead => exact ⟨h.target, h.tightness, h.opened, rfl, h.main, h.notes⟩
  | tableBody => exact ⟨h.target, h.tightness, h.opened, rfl, h.main, h.notes⟩
  | footnote label =>
    obtain ⟨journal, hw⟩ := w.enter_footnote label
    obtain ⟨journal', hv⟩ := v.enter_footnote label
    rw [hw, hv]
    have hd := (h.register label).updateNote label
      (f := fun note => { note with defined := true })
      (g := fun note => { note with defined := true }) fun n m hnm => by
        simp only [Note.outline, Prod.mk.injEq] at hnm ⊢
        exact ⟨hnm.1, trivial, hnm.2.2⟩
    exact ⟨rfl, hd.tightness, hd.opened, hd.tablePart, hd.main, hd.notes⟩
  | _ => exact h

theorem Resembles.leave (h : w.Resembles v) (c : ContainerEnd) :
    (w.leave c).Resembles (v.leave c) := by
  cases c with
  | list kind =>
    exact ⟨h.target, congrArg List.tail h.tightness, h.opened, h.tablePart, h.main, h.notes⟩
  | table => exact ⟨h.target, h.tightness, h.opened, rfl, h.main, h.notes⟩
  | tableHead => exact ⟨h.target, h.tightness, h.opened, rfl, h.main, h.notes⟩
  | footnote => exact ⟨rfl, h.tightness, h.opened, h.tablePart, h.main, h.notes⟩
  | _ => exact h

theorem Resembles.popped (h : w.Resembles v) :
    ({ w with opened := w.opened.tail } : Writer).Resembles
      { v with opened := v.opened.tail } :=
  ⟨h.target, h.tightness, congrArg List.tail h.opened, h.tablePart, h.main, h.notes⟩

theorem Resembles.alike (h : w.Resembles v) : w.Alike v :=
  ⟨h.opened, h.tightness, by rw [h.tablePart]⟩

/-- What is written for an event depends on nothing that such writers differ in. -/
theorem Resembles.pieces (h : w.Resembles v) (e : Event) : w.pieces e = v.pieces e :=
  h.alike.pieces fun label _ => (h.register label).number label

/-- The skeleton of an event makes of a writer what the event makes of one alike. -/
theorem Resembles.written_skeleton (h : w.Resembles v) (e : Event) :
    (w.written e.skeleton).Resembles (v.written e) := by
  have hmarks : pieceMarks (w.pieces e.skeleton) = pieceMarks (v.pieces e) := by
    rw [pieceMarks_pieces, h.pieces]
  cases e with
  | start c a =>
    have hput := (h.enter c).put hmarks
    have hkey : c.skeleton.key = c.key := by cases c <;> rfl
    simp only [Event.skeleton, written, enter_skeleton, hkey]
    refine ⟨hput.target, hput.tightness, ?_, hput.tablePart, hput.main, hput.notes⟩
    exact congrArg (c.key :: ·) h.opened
  | stop c => exact (h.popped.put hmarks).leave c
  | footnoteReference label => exact (h.register label).put hmarks
  | _ => exact h.put hmarks

theorem Resembles.written (h : w.Resembles v) {e e' : Event} (he : e.skeleton = e'.skeleton) :
    (w.written e).Resembles (v.written e') := by
  have hw := (Resembles.refl w).written_skeleton e
  rw [he] at hw
  exact hw.symm.trans (h.written_skeleton e')

theorem Resembles.fault?_congr (h : w.Resembles v) {e e' : Event}
    (he : e.skeleton = e'.skeleton) : w.fault? e = v.fault? e' := by
  rw [← fault?_skeleton w e, he, fault?_skeleton, h.alike.fault?]

theorem pieceMarks_notesPieces (n : Nat) {ns ms : List Note}
    (h : ns.map Note.outline = ms.map Note.outline) :
    pieceMarks (notesPieces n ns) = pieceMarks (notesPieces n ms) := by
  induction ns generalizing n ms with
  | nil =>
    cases ms with
    | nil => rfl
    | cons m ms => cases h
  | cons note ns ih =>
    cases ms with
    | nil => cases h
    | cons m ms =>
      obtain ⟨hn, hns⟩ := List.cons.inj h
      simp only [Note.outline, Prod.mk.injEq] at hn
      obtain ⟨_, hdefined, hmarks⟩ := hn
      rw [notesPieces, notesPieces, pieceMarks_append, pieceMarks_append, ih (n + 1) hns]
      congr 1
      rw [notePieces, notePieces, hdefined]
      split
      · simp only [pieceMarks_cons, Piece.marks, hmarks]
      · rfl

theorem Resembles.footer (h : w.Resembles v) :
    marks w.withFooter.main.text = marks v.withFooter.main.text := by
  have hempty : w.notes.isEmpty = v.notes.isEmpty := by
    have hlength := congrArg List.isEmpty h.notes
    rw [List.isEmpty_map, List.isEmpty_map] at hlength
    exact hlength
  simp only [withFooter, marks_addAll, h.main, footerPieces, hempty]
  congr 1
  split
  · rfl
  · simp only [pieceMarks_append, pieceMarks_notesPieces 1 h.notes]

end Writer

def SplitHtml.marks (html : SplitHtml) : List Char := Html.marks (html.summary ++ html.rest)

theorem Writer.Resembles.conclude {w v : Writer} (h : w.Resembles v) :
    (conclude w .none).2.map SplitHtml.marks = (conclude v .none).2.map SplitHtml.marks := by
  have hunclosed : w.unclosed? = v.unclosed? := by
    rw [unclosed?, unclosed?, h.opened]
  simp only [Html.conclude, Held.events, writeAll, finish, hunclosed]
  cases v.unclosed? with
  | some e => rfl
  | none =>
    refine congrArg Except.ok ?_
    rw [SplitHtml.marks, SplitHtml.marks, split_append, split_append, h.footer]

theorem Writer.Resembles.writeFrom {w v : Writer} (h : w.Resembles v) (hw : w.Registered)
    (hv : v.Registered) {s s' : Stream} (hs : s.skeleton = s'.skeleton) :
    (writeFrom none w .none s).2.map SplitHtml.marks =
      (writeFrom none v .none s').2.map SplitHtml.marks := by
  induction s generalizing w v s' with
  | done =>
    cases s' with
    | done => exact h.conclude
    | _ => cases hs
  | fail error =>
    cases s' with
    | fail error' =>
      cases hs
      rfl
    | _ => cases hs
  | report n rest ih =>
    cases s' with
    | report n' rest' =>
      obtain ⟨rfl, hrest⟩ := Stream.report.inj hs
      have hreport : (w.report n).Resembles (v.report n) :=
        ⟨h.target, h.tightness, h.opened, h.tablePart, h.main, h.notes⟩
      exact ih hreport hw hv hrest
    | _ => cases hs
  | emit e rest ih =>
    cases s' with
    | emit e' rest' =>
      obtain ⟨he, hrest⟩ := Stream.emit.inj hs
      have hfault := h.fault?_congr he
      simp only [Html.writeFrom, accept, acceptFresh, maybeMarker_none, Bool.false_eq_true,
        if_false]
      cases hf : v.fault? e' with
      | none =>
        rw [hf] at hfault
        rw [write_of_fault?_eq_none hw hfault, write_of_fault?_eq_none hv hf]
        exact ih (h.written he) (hw.written e) (hv.written e') hrest
      | some err =>
        have herr : (w.write e).2 = some err := by
          rw [write_snd hw, hfault, hf]
        have herr' : (v.write e').2 = some err := by
          rw [write_snd hv, hf]
        simp only [herr, herr']
    | _ => cases hs

theorem marks_renderHtml_congr {s s' : Stream} (h : s.skeleton = s'.skeleton) :
    (renderHtml s).result.map marks = (renderHtml s').result.map marks := by
  have hmarks (s : Stream) : (renderHtml s).result.map marks =
      (writeFrom none {} .none s).2.map SplitHtml.marks := by
    rw [renderHtml_result]
    cases (writeFrom none {} .none s).2 <;> rfl
  rw [hmarks, hmarks]
  exact (Writer.Resembles.refl {}).writeFrom nofun nofun h

end Html

namespace Pass

open Html

theorem marks_plainCode (code : String) (a : Attributes) :
    marks (plainCode "" a.blank) = marks (plainCode code a) := by
  rw [plainCode, plainCode, piecesText, piecesText, marks_addAll, marks_addAll]
  refine congrArg (marks Buffer.empty.text ++ ·) ?_
  simp only [pieceMarks_cons, marks_opening a.keys_blank]
  rfl

/-- Code that is written plainly has the marks of its block, and nothing else is touched. -/
theorem skeleton_highlightCode (s : Stream) :
    (highlightCode none s.skeleton).skeleton = (highlightCode none s).skeleton := by
  induction s with
  | done | fail => rfl
  | report n rest ih => exact congrArg (Stream.report n) ih
  | emit e rest ih =>
    have hother := congrArg₂ Stream.emit e.skeleton_skeleton ih
    cases e with
    | codeBlock language code a =>
      simp only [Stream.skeleton, Event.skeleton, highlightCode, writeCode, Stream.emitMade,
        Attributes.isText_blank]
      split
      · simp only [Stream.skeleton, Event.skeleton, marks_plainCode code a, ih]
      · rfl
    | _ => exact hother

end Pass

namespace Html

/-- Documents that differ in what authors fill in alone fail alike, or have the same marks. So have
they when their code is written plainly first. -/
theorem marks_document_congr {s s' : Stream} (h : s.skeleton = s'.skeleton) :
    (renderHtml s).result.map marks = (renderHtml s').result.map marks ∧
      (renderHtml (Pass.highlightCode none s)).result.map marks =
        (renderHtml (Pass.highlightCode none s')).result.map marks := by
  refine ⟨marks_renderHtml_congr h, marks_renderHtml_congr ?_⟩
  rw [← Pass.skeleton_highlightCode s, h, Pass.skeleton_highlightCode]

example : (renderHtml (.ofList [.plain (.link "\x22<"), .str "&\x27", .stop .link])).result =
    .ok "<a href=\"&quot;&lt;\">&amp;&#x27;</a>" := by decide

def filledWith (text : String) : Stream :=
  .ofList [.start (.sect text) (.ofTexts [("title", text)]), .plain (.heading 1 text), .str text,
    .stop (.heading 1), .plain (.link text), .image text text {}, .stop .link,
    .math .inline text {}, .codeBlock text text (.ofTexts [("class", text)]),
    .htmlBlock "<br>" {}, .stop .sect]

theorem marks_filledWith :
    (filledWith "a").skeleton = (filledWith "\"><b id=\x27").skeleton ∧
      (renderHtml (filledWith "a")).result.isOk = true ∧
      (renderHtml (filledWith "a")).result.map marks =
        (renderHtml (filledWith "\"><b id=\x27")).result.map marks ∧
      (renderHtml (Pass.highlightCode none (filledWith "a"))).result.map marks =
        (renderHtml (Pass.highlightCode none (filledWith "\"><b id=\x27"))).result.map marks := by
  have h : (filledWith "a").skeleton = (filledWith "\"><b id=\x27").skeleton := by decide
  exact ⟨h, by decide, marks_document_congr h⟩

end Html
end MarkupHtml
