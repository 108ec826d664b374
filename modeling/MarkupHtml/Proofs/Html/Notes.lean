import MarkupHtml.Attributes.Lookup
import MarkupHtml.Proofs.Html.Numbering
import Mathlib.Data.List.Nodup

namespace MarkupHtml

namespace Event

def endsNote : Event → Bool
  | .stop .footnote => true
  | _ => false

def definedLabel? : Event → Option String
  | .start (.footnote label) _ => some label
  | _ => none

end Event

/-- Whether no definition of a note lies inside another one. -/
def NotesApart (outer : List Container) : List Event → Bool
  | [] => true
  | e :: es =>
    (e.definedLabel?.isNone || outer.all (·.key != .footnote)) && NotesApart (openFrom outer [e]) es

namespace Html

/-- A definition of a note, and what its content is written as. -/
structure Definition where
  label : String
  attributes : Attributes
  content : List Piece

def Definition.pieces (n : Nat) (d : Definition) : List Piece :=
  Writer.block "li" (Writer.noteAttributes d.attributes n) ++ d.content ++ Writer.closeBlock "li"

namespace Writer

def piecesOf (w : Writer) : List Event → List Piece
  | [] => []
  | e :: es => w.pieces e ++ piecesOf (w.write e).1 es

/-- The definitions among some events. As none lies in another one, the content of a definition
ends where a note ends next. -/
def definitions (w : Writer) : List Event → List Definition
  | [] => []
  | e :: es =>
    match e with
    | .start (.footnote label) a =>
      ⟨label, a, (w.write e).1.piecesOf (es.takeWhile fun e => !e.endsNote)⟩ ::
        definitions (w.write e).1 es
    | _ => definitions (w.write e).1 es

end Writer

/-- The definitions of a note with number `n` one after another, or an empty item if there is
none. -/
def noteItem (n : Nat) (own : List Definition) : String :=
  if own.isEmpty then
    piecesText [.opening "li" (Writer.noteAttributes {} n).texts, .closing "li", .newline]
  else String.join (own.map fun d => piecesText (d.pieces n))

def noteItems (ds : List Definition) (n : Nat) : List String → String
  | [] => ""
  | label :: labels =>
    noteItem n (ds.filter (·.label = label)) ++ noteItems ds (n + 1) labels

def noteSection (main : String) (ds : List Definition) (labels : List String) : String :=
  if labels.isEmpty then ""
  else
    (if atLineStart main then "" else "\n") ++
      "<hr>\n<aside class=\"footnotes\" role=\"doc-endnotes\">\n<ol>\n" ++
      noteItems ds 1 labels ++ "</ol>\n</aside>\n"

/-- Those labels in a list that stand before in it, or in `seen`. -/
def repeated (seen : List String) : List String → List String
  | [] => []
  | label :: labels =>
    if label ∈ seen then label :: repeated seen labels else repeated (label :: seen) labels

/-- How the notes of a document are written. -/
structure NoteRegistry (es : List Event) (html : Outcome String) : Prop where
  references : ∀ pre label post, es = pre ++ .footnoteReference label :: post →
    ∃ w w', ({} : Writer).writeAll pre = (w, none) ∧
      w.write (.footnoteReference label) = (w', none) ∧
      w'.buffer w.target =
        (w.buffer w.target).addAll (Writer.referencePieces (noteNumber es label))
  ids : ∀ a n, ("id", Writer.noteId n) ∈ (Writer.noteAttributes a n).texts
  text : ∃ w, ({} : Writer).writeAll es = (w, none) ∧
    html.result =
      .ok (w.main.text ++ noteSection w.main.text (({} : Writer).definitions es) (noteLabels es))
  notices : html.notices =
    (repeated [] (es.filterMap Event.definedLabel?)).map .duplicateNote ++
      ((noteLabels es).filter (· ∉ es.filterMap Event.definedLabel?)).map .missingNote

end Html

namespace Event

theorem definedLabel?_eq_none {e : Event} (h : e.noteLabel? = none) :
    e.definedLabel? = none := by
  cases e with
  | start c a =>
    cases c with
    | footnote label => cases h
    | _ => rfl
  | _ => rfl

theorem eq_start_of_definedLabel? {e : Event} {label : String}
    (h : e.definedLabel? = some label) : ∃ a, e = .start (.footnote label) a := by
  unfold definedLabel? at h
  split at h
  · cases h
    exact ⟨_, rfl⟩
  · cases h

theorem eq_stop_of_endsNote {e : Event} (h : e.endsNote = true) : e = .stop .footnote := by
  unfold endsNote at h
  split at h
  · rfl
  · cases h

end Event

namespace Html

namespace Writer

variable {w v : Writer} {es : List Event}

theorem goal_eq_target {e : Event} (he : e.definedLabel? = none) : w.goal e = w.target := by
  cases e with
  | start c a =>
    cases c with
    | footnote label => cases he
    | _ => rfl
  | _ => rfl

theorem goal_written {P : Option String → Prop} {e : Event} (hnone : P none) (ht : P w.target)
    (hd : ∀ label ∈ e.definedLabel?, P (some label)) :
    P (w.goal e) ∧ P (w.written e).target := by
  rw [written_target]
  cases e with
  | start c a =>
    cases c with
    | footnote label => exact ⟨hd label rfl, hd label rfl⟩
    | _ => exact ⟨ht, ht⟩
  | stop c =>
    cases c with
    | footnote => exact ⟨ht, hnone⟩
    | _ => exact ⟨ht, ht⟩
  | _ => exact ⟨ht, ht⟩

theorem target_written {e : Event} (hd : e.definedLabel? = none) (he : e.endsNote = false) :
    (w.written e).target = w.target := by
  rw [written_target]
  cases e with
  | start c a =>
    cases c with
    | footnote label => cases hd
    | _ => rfl
  | stop c =>
    cases c with
    | footnote => cases he
    | _ => rfl
  | _ => rfl

theorem definitions_cons {e : Event} (he : e.definedLabel? = none) :
    w.definitions (e :: es) = (w.write e).1.definitions es := by
  cases e with
  | start c a =>
    cases c with
    | footnote label => cases he
    | _ => rfl
  | _ => rfl

theorem Inside.target_eq_none {outer : List Container} (h : w.Inside outer)
    (ho : outer.all (·.key != .footnote) = true) : w.target = none := by
  cases ht : w.target with
  | none => rfl
  | some label =>
    have hin := h.target (by rw [ht]; rfl)
    rw [h.opened] at hin
    obtain ⟨c, hc, hkey⟩ := List.mem_map.1 hin
    have hne := List.all_eq_true.1 ho c hc
    rw [hkey] at hne
    cases hne

theorem definitions_start (w : Writer) (label : String) (a : Attributes) (es : List Event) :
    w.definitions (.start (.footnote label) a :: es) =
      ⟨label, a, (w.write (.start (.footnote label) a)).1.piecesOf
        (es.takeWhile fun e => !e.endsNote)⟩ ::
          (w.write (.start (.footnote label) a)).1.definitions es := rfl

theorem pieces_start_footnote {label : String} {a : Attributes} (h : w.Registered)
    (hw : w.writeAll (.start (.footnote label) a :: es) = (v, none)) :
    w.pieces (.start (.footnote label) a) = block "li" (noteAttributes a (v.number label)) := by
  rw [pieces_note w rfl, number_register h hw rfl]
  rfl

/-- What is written to the item of a note: the rest of the definition that is open, and all
definitions that come. -/
theorem piecesTo_note {outer : List Container} (h : w.Inside outer)
    (ha : NotesApart outer es = true) (hw : w.writeAll es = (v, none)) (hv : v.opened = [])
    (label : String) :
    piecesTo (some label) w es =
      (if w.target = some label then
          w.piecesOf (es.takeWhile fun e => !e.endsNote) ++ closeBlock "li" else []) ++
        ((w.definitions es).filter (·.label = label)).flatMap
          (Definition.pieces (v.number label)) := by
  induction es generalizing w outer with
  | nil =>
    obtain rfl : w = v := congrArg Prod.fst hw
    have ho : outer = [] := List.map_eq_nil_iff.1 (h.opened.symm.trans hv)
    have ht := h.target_eq_none (by rw [ho]; rfl)
    rw [ht]
    rfl
  | cons e es ih =>
    obtain ⟨u, hu, hes⟩ := writeAll_cons.1 hw
    obtain ⟨hacc, rfl⟩ := write_ok h.registered hu
    obtain ⟨hout, ha⟩ := Bool.and_eq_true_iff.1 ha
    have hout := Bool.or_eq_true_iff.1 hout
    have hi := h.written hacc
    have ih := ih hi ha hes
    rw [piecesTo, hu, ih]
    cases hd : e.definedLabel? with
    | some other =>
      obtain ⟨a, rfl⟩ := Event.eq_start_of_definedLabel? hd
      have ht := h.target_eq_none (hout.resolve_left Bool.false_ne_true)
      rw [ht, pieces_start_footnote h.registered hw, definitions_start, hu, written_target]
      by_cases hl : other = label
      · subst hl
        simp [goal, Definition.pieces]
      · simp [goal, hl]
    | none =>
      rw [goal_eq_target hd, definitions_cons hd, hu]
      cases he : e.endsNote with
      | true =>
        obtain rfl := Event.eq_stop_of_endsNote he
        have hnone : (w.written (.stop .footnote)).target = none := written_target w _
        simp only [hnone, reduceCtorEq, if_false, List.nil_append, List.takeWhile_cons, he,
          Bool.not_true, Bool.false_eq_true, piecesOf]
        rfl
      | false =>
        rw [target_written hd he, List.takeWhile_cons_of_pos (by rw [he]; rfl), piecesOf, hu]
        split
        · simp only [List.append_assoc]
        · rfl

theorem map_label_definitions (w : Writer) (es : List Event) :
    (w.definitions es).map Definition.label = es.filterMap Event.definedLabel? := by
  induction es generalizing w with
  | nil => rfl
  | cons e es ih =>
    cases hd : e.definedLabel? with
    | some label =>
      obtain ⟨a, rfl⟩ := Event.eq_start_of_definedLabel? hd
      rw [List.filterMap_cons_some hd, ← ih]
      rfl
    | none => rw [definitions_cons hd, List.filterMap_cons_none hd, ih]

def defines (w : Writer) (label : String) : Bool :=
  ((w.note? label).map Note.defined).getD false

theorem defines_put (w : Writer) (ps : List Piece) (label : String) :
    (w.put ps).defines label = w.defines label := by
  rw [defines, note?_put, Option.map_map, defines]
  congr 2
  funext note
  rw [Function.comp_apply]
  split <;> rfl

theorem defines_register (w : Writer) (label other : String) :
    (w.register label).defines other = w.defines other := by
  rw [defines, note?_register, defines]
  split
  · next he =>
    subst he
    cases w.note? label <;> rfl
  · rfl

theorem defines_enter_footnote (w : Writer) (label other : String) :
    (w.enter (.footnote label)).defines other = true ↔ w.defines other = true ∨ label = other := by
  obtain ⟨journal, he⟩ := w.enter_footnote label
  have hn := note?_updateNote (w.register label) label other
    (f := fun note => { note with defined := true }) fun _ => rfl
  rw [he]
  change (((updateNote _ label _).note? other).map Note.defined).getD false = true ↔ _
  rw [hn, Option.map_map, ← defines_register w label other, defines]
  by_cases hl : label = other
  · subst hl
    obtain ⟨note, hnote⟩ := Option.isSome_iff_exists.1
      (isSome_note?_iff.2 (mem_labels_register w label))
    rw [hnote]
    simp [note?_label hnote]
  · cases hnote : (w.register label).note? other with
    | none => simp [hl]
    | some note => simp [hl, note?_label hnote, Ne.symm hl]

theorem defines_written (w : Writer) (e : Event) (label : String) :
    (w.written e).defines label = true ↔
      w.defines label = true ∨ e.definedLabel? = some label := by
  have hnone {e : Event} (he : e.definedLabel? = none) {b : Bool} (hb : b = w.defines label) :
      b = true ↔ w.defines label = true ∨ e.definedLabel? = some label := by
    rw [he, hb]
    simp only [reduceCtorEq, or_false]
  cases e with
  | start c a =>
    have hput := defines_put (w.enter c) (w.pieces (.start c a)) label
    cases c with
    | footnote other =>
      have henter := defines_enter_footnote w other label
      rw [← hput] at henter
      exact henter.trans (or_congr_right Option.some_inj.symm)
    | _ => exact hnone rfl hput
  | stop c =>
    have hleave (v : Writer) : (v.leave c).defines label = v.defines label := by cases c <;> rfl
    exact hnone rfl ((hleave _).trans (defines_put _ _ label))
  | footnoteReference other =>
    exact hnone rfl ((defines_put _ _ label).trans (defines_register w other label))
  | _ => exact hnone rfl (defines_put w _ label)

theorem defines_writeAll (h : w.Registered) (hw : w.writeAll es = (v, none)) (label : String) :
    v.defines label = true ↔
      w.defines label = true ∨ label ∈ es.filterMap Event.definedLabel? := by
  induction es generalizing w with
  | nil =>
    cases hw
    simp
  | cons e es ih =>
    obtain ⟨u, hu, hes⟩ := writeAll_cons.1 hw
    obtain ⟨_, rfl⟩ := write_ok h hu
    rw [ih (h.written e) hes, defines_written, or_assoc]
    refine or_congr_right ?_
    cases hd : e.definedLabel? with
    | none => simp [hd]
    | some other => simp [hd, eq_comm]

theorem journal_put (w : Writer) (ps : List Piece) : (w.put ps).journal = w.journal := by
  rw [put]
  split <;> rfl

theorem journal_register (w : Writer) (label : String) :
    (w.register label).journal = w.journal := by
  rw [register]
  split <;> rfl

theorem journal_written (w : Writer) (e : Event) :
    (w.written e).journal = w.journal ++
      match e.definedLabel? with
      | some label => if w.defines label then [.duplicateNote label] else []
      | none => [] := by
  have hnone {journal : List Notice} : journal = journal ++ [] := (List.append_nil _).symm
  cases e with
  | start c a =>
    refine (journal_put (w.enter c) _).trans ?_
    cases c with
    | footnote label =>
      simp only [Event.definedLabel?, enter]
      rw [← defines_register w label label, defines, ← journal_register w label]
      split
      · rfl
      · exact hnone
    | _ => exact hnone
  | stop c =>
    have hleave (v : Writer) : (v.leave c).journal = v.journal := by cases c <;> rfl
    exact ((hleave _).trans (journal_put _ _)).trans hnone
  | footnoteReference label =>
    exact ((journal_put _ _).trans (journal_register w label)).trans hnone
  | _ => exact (journal_put w _).trans hnone

theorem journal_writeAll {seen : List String} (h : w.Registered)
    (hw : w.writeAll es = (v, none)) (hseen : ∀ label, w.defines label = true ↔ label ∈ seen) :
    v.journal = w.journal ++
      (repeated seen (es.filterMap Event.definedLabel?)).map .duplicateNote := by
  induction es generalizing w seen with
  | nil =>
    cases hw
    exact (List.append_nil _).symm
  | cons e es ih =>
    obtain ⟨u, hu, hes⟩ := writeAll_cons.1 hw
    obtain ⟨_, rfl⟩ := write_ok h hu
    have hj := journal_written w e
    have hdef := defines_written w e
    cases hd : e.definedLabel? with
    | none =>
      simp only [hd, reduceCtorEq, or_false, hseen] at hdef
      rw [List.filterMap_cons_none hd, ih (h.written e) hes hdef, hj, hd, List.append_nil]
    | some label =>
      simp only [hd, hseen] at hj
      simp only [hd, hseen, Option.some.injEq] at hdef
      rw [List.filterMap_cons_some hd, repeated]
      by_cases hl : label ∈ seen
      · have hdef' (other : String) : (w.written e).defines other = true ↔ other ∈ seen :=
          (hdef other).trans (or_iff_left_of_imp fun he => he ▸ hl)
        rw [if_pos hl] at hj ⊢
        rw [ih (h.written e) hes hdef', hj, List.append_assoc]
        rfl
      · have hdef' (other : String) :
            (w.written e).defines other = true ↔ other ∈ label :: seen := by
          rw [hdef, List.mem_cons, or_comm, eq_comm]
        rw [if_neg hl] at hj ⊢
        rw [ih (h.written e) hes hdef', hj, List.append_nil]

theorem id_noteAttributes (a : Attributes) (n : Nat) :
    ("id", noteId n) ∈ (noteAttributes a n).texts := by
  have hid : ("id", AttrValue.text (noteId n)) ∈ (noteAttributes a n).pairs := by
    rw [noteAttributes, Attributes.mem_set, Attributes.mem_set]
    exact .inr ⟨(by decide : "id" ≠ "role"), .inl rfl⟩
  exact List.mem_map_of_mem hid

theorem text_addAll_definitions {b : Buffer} (h : b.fresh = true) (n : Nat)
    (own : List Definition) :
    (b.addAll (own.flatMap (Definition.pieces n))).text =
      b.text ++ String.join (own.map fun d => piecesText (d.pieces n)) := by
  induction own generalizing b with
  | nil => exact String.append_empty.symm
  | cons d own ih =>
    have hfresh : (b.addAll (d.pieces n)).fresh = true := by
      rw [Definition.pieces, Buffer.addAll_append]
      exact fresh_add_newline _
    rw [List.flatMap_cons, Buffer.addAll_append, ih hfresh, text_addAll (.inl h), List.map_cons,
      String.join_cons, String.append_assoc]

theorem note?_of_mem {note : Note} (hn : v.labels.Nodup) (h : note ∈ v.notes) :
    v.note? note.label = some note := by
  obtain ⟨other, ho⟩ := Option.isSome_iff_exists.1
    (isSome_note?_iff.2 (List.mem_map_of_mem h))
  rw [ho, List.inj_on_of_nodup_map hn (List.mem_of_find?_eq_some ho) h (note?_label ho)]

theorem defined_iff (hw : ({} : Writer).writeAll es = (v, none)) (hn : v.labels.Nodup)
    {note : Note} (h : note ∈ v.notes) :
    note.defined = true ↔ note.label ∈ es.filterMap Event.definedLabel? := by
  have hdef := defines_writeAll inside_nothing.registered hw note.label
  rw [defines, note?_of_mem hn h] at hdef
  refine hdef.trans ?_
  simp [defines, note?]

theorem text_notePieces (ha : NotesApart [] es = true) (hw : ({} : Writer).writeAll es = (v, none))
    (hv : v.opened = []) (hn : v.labels.Nodup) {note : Note} (h : note ∈ v.notes) :
    piecesText (notePieces (v.number note.label) note) =
      noteItem (v.number note.label)
        ((({} : Writer).definitions es).filter (·.label = note.label)) := by
  have hnote := note?_of_mem hn h
  have hdef : note.defined = true ↔
      (({} : Writer).definitions es).filter (·.label = note.label) ≠ [] := by
    rw [defined_iff hw hn h, ← map_label_definitions {} es]
    simp
  rw [notePieces, noteItem]
  cases hd : note.defined with
  | false =>
    rw [hd] at hdef
    rw [not_not.1 (mt hdef.2 Bool.false_ne_true)]
    rfl
  | true =>
    have hown := hdef.1 hd
    have htext := text_addAll_definitions (b := .empty) rfl (v.number note.label)
      ((({} : Writer).definitions es).filter (·.label = note.label))
    have hbuffer := buffer_document hw (some note.label)
    rw [piecesTo_note inside_nothing ha hw hv, buffer, hnote] at hbuffer
    change note.html = _ at hbuffer
    rw [if_pos rfl, if_neg (by rwa [List.isEmpty_iff]), hbuffer]
    exact htext

theorem text_addAll_notesPieces {ds : List Definition} {n : Nat} {notes : List Note}
    (h : ∀ i note, notes[i]? = some note →
      piecesText (notePieces (n + i) note) = noteItem (n + i) (ds.filter (·.label = note.label)))
    (b : Buffer) :
    (b.addAll (notesPieces n notes)).text =
      b.text ++ noteItems ds n (notes.map Note.label) := by
  induction notes generalizing n b with
  | nil => exact String.append_empty.symm
  | cons note notes ih =>
    have hfirst : piecesText (notePieces n note) =
        noteItem n (ds.filter (·.label = note.label)) := h 0 note rfl
    have hrest (i : Nat) (other : Note) (hi : notes[i]? = some other) :
        piecesText (notePieces (n + 1 + i) other) =
          noteItem (n + 1 + i) (ds.filter (·.label = other.label)) := by
      rw [Nat.add_assoc, Nat.add_comm 1 i]
      exact h (i + 1) other hi
    have hsolid : Piece.freshLine ∉ notePieces n note := by
      rw [notePieces]
      split <;> simp [Piece.newline]
    rw [notesPieces, Buffer.addAll_append, ih hrest, text_addAll (.inr hsolid), hfirst,
      List.map_cons, noteItems, String.append_assoc]

theorem text_withFooter (ha : NotesApart [] es = true)
    (hw : ({} : Writer).writeAll es = (v, none)) (hv : v.opened = []) (hn : v.labels.Nodup) :
    v.withFooter.main.text =
      v.main.text ++ noteSection v.main.text (({} : Writer).definitions es) v.labels := by
  have hitem (i : Nat) (note : Note) (hi : v.notes[i]? = some note) :
      piecesText (notePieces (1 + i) note) =
        noteItem (1 + i) ((({} : Writer).definitions es).filter (·.label = note.label)) := by
    have hnumber : v.number note.label = 1 + i := by
      have hl : v.labels[i]? = some note.label := by rw [labels, List.getElem?_map, hi]; rfl
      obtain ⟨hlt, hl⟩ := List.getElem?_eq_some_iff.1 hl
      rw [number_eq, ← hl, hn.idxOf_getElem i hlt, Nat.add_comm]
    rw [← hnumber]
    exact text_notePieces ha hw hv hn (List.mem_of_getElem? hi)
  have htext (b : Buffer) := text_addAll_notesPieces hitem b
  have hempty : v.labels.isEmpty = v.notes.isEmpty := List.isEmpty_map
  rw [withFooter, footerPieces, noteSection, hempty]
  change (v.main.addAll _).text = _
  split
  · exact String.append_empty.symm
  · have hhead : piecesText [.opening "hr" [], .newline,
        .opening "aside" [("class", "footnotes"), ("role", "doc-endnotes")], .newline,
        .opening "ol" [], .newline] =
          "<hr>\n<aside class=\"footnotes\" role=\"doc-endnotes\">\n<ol>\n" := by decide
    have htail : piecesText [.closing "ol", .newline, .closing "aside", .newline] =
        "</ol>\n</aside>\n" := by decide
    rw [Buffer.addAll_append, Buffer.addAll_append, text_addAll (.inr (by decide)), htail, htext,
      Buffer.addAll_cons, text_addAll (.inr (by decide)), hhead, Buffer.text_add, Piece.render,
      ← v.main.fresh_eq]
    simp only [String.append_assoc]
    rfl

end Writer

/-- A note that is referred to and never defined, before one that is defined twice. -/
def sampleNotes : List Event :=
  [.footnoteReference "b", .plain (.footnote "a"), .str "x", .stop .footnote,
   .plain (.footnote "a"), .stop .footnote]

def sampleNotesHtml : String :=
  "<sup class=\"footnote-reference\"><a role=\"doc-noteref\" href=\"#fn-1\">1</a></sup>\n" ++
  "<hr>\n<aside class=\"footnotes\" role=\"doc-endnotes\">\n<ol>\n" ++
  "<li class=\"footnote-definition\" id=\"fn-1\" role=\"doc-footnote\"></li>\n" ++
  "<li class=\"footnote-definition\" id=\"fn-2\" role=\"doc-footnote\">x\n</li>\n" ++
  "<li class=\"footnote-definition\" id=\"fn-2\" role=\"doc-footnote\">\n</li>\n" ++
  "</ol>\n</aside>\n"

example :
    (renderHtml (.ofList [.plain (.footnote "a"), .stop .footnote, .plain (.footnote "a"),
      .stop .footnote, .footnoteReference "b"])).notices =
        [.duplicateNote "a", .missingNote "b"] := by
  decide

end Html
end MarkupHtml
