import MarkupHtml.Proofs.Html.Names
import MarkupHtml.Proofs.Html.Notes
import MarkupHtml.Proofs.Html.Tags
import MarkupHtml.Proofs.Number
import Mathlib

namespace MarkupHtml

/-- The id that a section or a heading has of its own, by the container directly around it. A
heading directly in a section leaves it to that. -/
def Event.ownId (innermost : Option ContainerKey) : Event → List String
  | .start (.sect id) _ => if id = "" then [] else [id]
  | .start (.heading _ id) _ => if innermost = some .sect ∨ id = "" then [] else [id]
  | _ => []

/-- The ids of the sections and the headings among some events. -/
def ownIds (outer : List Container) : List Event → List String
  | [] => []
  | e :: es => e.ownId (outer.head?.map Container.key) ++ ownIds (openFrom outer [e]) es

theorem ownIds_append (outer : List Container) (es fs : List Event) :
    ownIds outer (es ++ fs) = ownIds outer es ++ ownIds (openFrom outer es) fs := by
  induction es generalizing outer with
  | nil => rfl
  | cons e es ih =>
    have hopen : openFrom (openFrom outer [e]) es = openFrom outer (e :: es) :=
      (openFrom_append outer [e] es).symm
    rw [List.cons_append, ownIds, ih, hopen, ownIds, List.append_assoc]

namespace Html

open scoped List

def isPlainName (name : String) : Bool := isWord name && !isIdName name.toList

/-- Whether an event can be read back and brings no id but that of a section or a heading. -/
structure Anonymous (e : Event) : Prop where
  names : ∀ name ∈ e.names, isPlainName name = true
  html : ∀ content ∈ e.html, Reads content.toList []

instance (e : Event) : Decidable (Anonymous e) :=
  decidable_of_iff ((∀ name ∈ e.names, isPlainName name = true) ∧
    ∀ content ∈ e.html, Reads content.toList []) ⟨fun h => ⟨h.1, h.2⟩, fun h => ⟨h.names, h.html⟩⟩

theorem idsOf_eq_nil {attributes : List (String × String)}
    (h : ∀ key ∈ attributes.map Prod.fst, isIdName key.toList = false) : idsOf attributes = [] := by
  have hnone : attributes.filter (isIdName ·.1.toList) = [] :=
    List.filter_eq_nil_iff.2 fun p hp => Bool.eq_false_iff.1 (h p.1 (List.mem_map_of_mem hp))
  rw [idsOf, hnone]
  rfl

def idPairs (a : Attributes) : List (String × AttrValue) :=
  a.pairs.filter (isIdName ·.1.toList)

theorem idsOf_texts (a : Attributes) : idsOf a.texts = (idPairs a).map (·.2.asText) := by
  rw [idsOf, Attributes.texts, List.filter_map, List.map_map, idPairs]
  rfl

theorem sorted_idPairs (a : Attributes) :
    ((idPairs a).map Prod.fst).Pairwise Text.Precedes :=
  a.sorted.sublist (List.filter_sublist.map _)

theorem idsOf_set {key : String} (hk : isIdName key.toList = false) (a : Attributes)
    (value : AttrValue) : idsOf (a.set key value).texts = idsOf a.texts := by
  rw [idsOf_texts, idsOf_texts]
  congr 1
  refine Attributes.pairs_eq_of_mem_iff (sorted_idPairs _) (sorted_idPairs a) fun p => ?_
  simp only [idPairs, List.mem_filter, Attributes.mem_set]
  constructor
  · rintro ⟨rfl | ⟨_, hp⟩, hid⟩
    · rw [hk] at hid
      cases hid
    · exact ⟨hp, hid⟩
  · rintro ⟨hp, hid⟩
    refine ⟨.inr ⟨?_, hp⟩, hid⟩
    rintro rfl
    rw [hk] at hid
    cases hid

variable {a : Attributes}

theorem not_isIdName {name : String} (h : isPlainName name = true) :
    isIdName name.toList = false := by
  rw [isPlainName, Bool.and_eq_true, Bool.not_eq_true'] at h
  exact h.2

theorem idsOf_plain (h : ∀ name ∈ a.keys, isPlainName name = true) : idsOf a.texts = [] := by
  refine idsOf_eq_nil fun key hkey => not_isIdName (h key ?_)
  rwa [Attributes.map_fst_texts] at hkey

theorem idsOf_set_id (h : ∀ name ∈ a.keys, isPlainName name = true) (id : String) :
    idsOf (a.set "id" id).texts = [id] := by
  have hone : idPairs (a.set "id" id) = [("id", .text id)] := by
    refine Attributes.pairs_eq_of_mem_iff (sorted_idPairs _) (List.pairwise_singleton _ _)
      fun p => ?_
    rw [idPairs, List.mem_filter, Attributes.mem_set, List.mem_singleton]
    constructor
    · rintro ⟨rfl | ⟨_, hp⟩, hid⟩
      · rfl
      · rw [not_isIdName (h p.1 (List.mem_map_of_mem hp))] at hid
        cases hid
    · rintro rfl
      exact ⟨.inl rfl, (by decide : isIdName "id".toList = true)⟩
  rw [idsOf_texts, hone]
  rfl

def Piece.ids : Piece → List String
  | .opening _ attributes => idsOf attributes
  | .raw content => elementIds content
  | .freshLine | .closing _ | .text _ => []

/-- Whether a piece can be read by itself. -/
structure Piece.Legible (p : Piece) : Prop where
  names : ∀ name ∈ p.names, isWord name = true
  html : ∀ content ∈ p.html, Reads content.toList (elementIds content)

instance (p : Piece) : Decidable p.Legible :=
  decidable_of_iff ((∀ name ∈ p.names, isWord name = true) ∧
    ∀ content ∈ p.html, Reads content.toList (elementIds content))
    ⟨fun h => ⟨h.1, h.2⟩, fun h => ⟨h.names, h.html⟩⟩

theorem reads_render {p : Piece} (h : p.Legible) (b : Buffer) :
    Reads (p.render b).toList p.ids := by
  cases p with
  | freshLine =>
    rw [Piece.render]
    split <;> rfl
  | opening tag attributes =>
    obtain ⟨htag, hkeys⟩ := List.forall_mem_cons.1 h.names
    exact reads_opening htag fun p hp => hkeys p.1 (List.mem_map_of_mem hp)
  | closing tag => exact reads_closing (h.names tag List.mem_cons_self)
  | text content => exact reads_text (not_mem_escape (by decide) content)
  | raw content => exact h.html content List.mem_cons_self

theorem reads_addAll {ps : List Piece} (h : ∀ p ∈ ps, p.Legible) (b : Buffer) :
    ∃ s, (b.addAll ps).text = b.text ++ s ∧ Reads s.toList (ps.flatMap Piece.ids) := by
  induction ps generalizing b with
  | nil => exact ⟨"", String.append_empty.symm, reads_nil⟩
  | cons p ps ih =>
    rw [List.forall_mem_cons] at h
    obtain ⟨s, hs, hids⟩ := ih h.2 (b.add p)
    refine ⟨p.render b ++ s, ?_, ?_⟩
    · rw [Buffer.addAll_cons, hs, Buffer.text_add, String.append_assoc]
    · rw [String.toList_append]
      exact (reads_render h.1 b).append hids

theorem admits_isWord : Admits (isWord · = true) where
  fixed := by decide
  heading level := by
    have htext : isWord level.text = true := by
      refine Number.all_text (fun c hc => ?_) (by decide) level
      rw [isWordChar, Bool.not_eq_true']
      simp only [endsWord, Bool.or_eq_false_iff, beq_eq_false_iff_ne]
      refine ⟨⟨⟨⟨⟨⟨⟨⟨?_, ?_⟩, ?_⟩, ?_⟩, ?_⟩, ?_⟩, ?_⟩, ?_⟩, ?_⟩ <;>
        · rintro rfl
          cases hc
    rw [Writer.headingTag, isWord_append, htext]
    decide

theorem legible_pieces (w : Writer) {e : Event} (h : Anonymous e) :
    ∀ p ∈ w.pieces e, p.Legible := by
  intro p hp
  constructor
  case names =>
    refine admits_isWord.pieces w (fun name hname => ?_) p hp
    have hplain := h.names name hname
    rw [isPlainName, Bool.and_eq_true] at hplain
    exact hplain.1
  case html =>
    intro content hc
    rcases List.mem_cons.1 (w.html_pieces e (List.mem_flatMap.2 ⟨p, hp, hc⟩)) with rfl | hin
    · decide
    · have hreads := h.html content hin
      rwa [hreads.elementIds_eq]

namespace Writer

theorem ids_block (tag : String) (a : Attributes) :
    (block tag a).flatMap Piece.ids = idsOf a.texts := List.append_nil _

theorem idsOf_setId (h : ∀ name ∈ a.keys, isPlainName name = true) (id : String) :
    idsOf (setId a id).texts = if id = "" then [] else [id] := by
  unfold setId
  split
  · exact idsOf_plain h
  · exact idsOf_set_id h id

theorem idsOf_setIfSome {key : String} (hk : isIdName key.toList = false) (a : Attributes)
    (value : Option String) : idsOf (setIfSome a key value).texts = idsOf a.texts := by
  cases value with
  | none => rfl
  | some v => exact idsOf_set hk a v

theorem idsOf_listAttributes (a : Attributes) (kind : ListKind) :
    idsOf (listAttributes a kind).texts = idsOf a.texts := by
  cases kind with
  | unordered => rfl
  | task => exact idsOf_set (by decide) a _
  | ordered numbering start =>
    have htype := idsOf_setIfSome (by decide : isIdName "type".toList = false) a
      (numberingType numbering)
    simp only [listAttributes]
    split
    · exact htype
    · exact (idsOf_set (by decide) _ _).trans htype

theorem idsOf_noteAttributes (h : ∀ name ∈ a.keys, isPlainName name = true) (n : Nat) :
    idsOf (noteAttributes a n).texts = [noteId n] := by
  have hclass := Attributes.forall_mem_keys_set h (by decide : isPlainName "class" = true)
    "footnote-definition"
  rw [noteAttributes, idsOf_set (by decide), idsOf_set_id hclass]

theorem ids_startPieces (w : Writer) {c : Container}
    (h : ∀ name ∈ (Event.start c a).names, isPlainName name = true) :
    (w.startPieces c a).flatMap Piece.ids =
      (Event.start c a).ownId w.opened.head? ++
        ((Event.start c a).definedLabel?.toList.map fun label => noteId (w.number label)) := by
  cases c with
  | sect id =>
    rw [startPieces, ids_block, idsOf_setId h]
    exact (List.append_nil _).symm
  | heading level id =>
    have hlink : [Piece.opening "a" [("href", "#" ++ id)]].flatMap Piece.ids = [] :=
      (List.append_nil _).trans
        (idsOf_eq_nil (List.forall_mem_singleton.2 (by decide : isIdName "href".toList = false)))
    rw [startPieces, List.flatMap_append, ids_block, hlink, Event.ownId]
    congr 1
    by_cases hs : w.opened.head? = some .sect
    · rw [if_pos hs, if_pos (.inl hs), idsOf_plain h]
    · simp only [hs, if_false, false_or]
      exact idsOf_setId h id
  | paragraph =>
    simp only [startPieces]
    split
    · rfl
    · exact (ids_block "p" a).trans (idsOf_plain h)
  | link destination =>
    exact (List.append_nil _).trans ((idsOf_set (by decide) a _).trans (idsOf_plain h))
  | list kind tight =>
    rw [startPieces, ids_block, idsOf_listAttributes, idsOf_plain h]
    rfl
  | taskListItem checked =>
    rw [startPieces, ids_block, taskAttributes, idsOf_set (by decide), idsOf_set (by decide),
      idsOf_plain h]
    rfl
  | tableCell alignment head =>
    rw [startPieces, ids_block, idsOf_setIfSome (by decide), idsOf_plain h]
    rfl
  | footnote label =>
    rw [startPieces, ids_block, idsOf_noteAttributes h]
    rfl
  | other name =>
    have hkeys := (List.forall_mem_cons.1 h).2
    simp only [startPieces]
    split
    · exact (ids_block name a).trans (idsOf_plain hkeys)
    · exact (List.append_nil _).trans (idsOf_plain hkeys)
  | _ => exact (ids_block _ a).trans (idsOf_plain h)

theorem ids_stopPieces (w : Writer) (c : ContainerEnd) :
    (w.stopPieces c).flatMap Piece.ids = [] := by
  cases c with
  | paragraph =>
    simp only [stopPieces]
    split <;> rfl
  | other name =>
    simp only [stopPieces]
    split <;> rfl
  | _ => rfl

theorem ids_leafPieces (w : Writer) {e : Event} (h : Anonymous e) :
    (w.leafPieces e).flatMap Piece.ids = [] := by
  cases e with
  | image destination alt a =>
    have hids : (w.leafPieces (.image destination alt a)).flatMap Piece.ids = _ :=
      List.append_nil _
    exact hids.trans ((idsOf_set (by decide) _ _).trans ((idsOf_set (by decide) _ _).trans
      (idsOf_plain h.names)))
  | codeBlock language code a => exact (List.append_nil _).trans (idsOf_plain h.names)
  | math kind source a =>
    exact (List.append_nil _).trans ((idsOf_set (by decide) a _).trans (idsOf_plain h.names))
  | htmlInline content a | htmlBlock content a =>
    have hcontent := (h.html content List.mem_cons_self).elementIds_eq
    simp only [leafPieces]
    split
    · exact (List.append_nil _).trans hcontent
    · simp only [List.flatMap_cons, Piece.ids, hcontent, idsOf_plain h.names]
      rfl
  | tag name a =>
    exact (List.append_nil _).trans (idsOf_plain (List.forall_mem_cons.1 h.names).2)
  | footnoteReference label =>
    have hsup : idsOf [("class", "footnote-reference")] = [] := idsOf_eq_nil (by decide)
    have hlink : idsOf [("role", "doc-noteref"), ("href", "#" ++ noteId (w.number label))] = [] := by
      refine idsOf_eq_nil ?_
      change ∀ key ∈ ["role", "href"], isIdName key.toList = false
      decide
    change idsOf _ ++ (idsOf _ ++ []) = []
    rw [hsup, hlink]
    rfl
  | _ => rfl

theorem ids_pieces (w : Writer) {e : Event} (h : Anonymous e) :
    (w.pieces e).flatMap Piece.ids =
      e.ownId w.opened.head? ++
        (e.definedLabel?.toList.map fun label => noteId ((w.register label).number label)) := by
  cases e with
  | start c a =>
    rw [pieces, ids_startPieces (w.enter c) h.names, enter_opened]
    cases c with
    | footnote label =>
      have hnumber := number_congr (labels_enter_footnote w label) label
      exact congrArg (fun n => [noteId n]) hnumber
    | _ => rfl
  | stop c => exact w.ids_stopPieces c
  | footnoteReference label => exact (w.register label).ids_leafPieces h
  | _ => exact w.ids_leafPieces h

variable {w v : Writer} {outer : List Container} {e : Event} {es : List Event} {label : String}

/-- The ids that events write to a buffer. -/
def idsTo (b : Option String) (w : Writer) (es : List Event) : List String :=
  (piecesTo b w es).flatMap Piece.ids

theorem idsTo_cons (hu : w.write e = (w.written e, none)) (b : Option String) (es : List Event) :
    idsTo b w (e :: es) =
      (if w.goal e = b then (w.pieces e).flatMap Piece.ids else []) ++
        idsTo b (w.written e) es := by
  rw [idsTo, piecesTo, hu, List.flatMap_append]
  congr 1
  split <;> rfl

/-- The ids in what is written for the first event of a run, with the number that its label has at
the end. -/
theorem ids_pieces_of_run (h : w.Inside outer) (ha : Anonymous e)
    (hw : w.writeAll (e :: es) = (v, none)) :
    (w.pieces e).flatMap Piece.ids = e.ownId (outer.head?.map Container.key) ++
      e.definedLabel?.toList.map fun label => noteId (v.number label) := by
  rw [ids_pieces w ha, h.opened, List.head?_map]
  congr 1
  refine List.map_congr_left fun label hl => ?_
  obtain ⟨a, rfl⟩ := Event.eq_start_of_definedLabel? (Option.mem_toList.1 hl)
  rw [number_register h.registered hw rfl]

theorem legible_piecesTo (h : ∀ e ∈ es, Anonymous e) (b : Option String) (w : Writer) :
    ∀ p ∈ piecesTo b w es, p.Legible := by
  induction es generalizing w with
  | nil => exact List.forall_mem_nil _
  | cons e es ih =>
    rw [List.forall_mem_cons] at h
    refine List.forall_mem_append.2 ⟨?_, ih h.2 _⟩
    split
    · exact legible_pieces w h.1
    · exact List.forall_mem_nil _

theorem idsTo_eq_nil (hr : w.Registered) (ht : w.target ≠ some label)
    (hd : label ∉ es.filterMap Event.definedLabel?) (hw : w.writeAll es = (v, none)) :
    idsTo (some label) w es = [] := by
  induction es generalizing w with
  | nil => rfl
  | cons e es ih =>
    obtain ⟨u, hu, hes⟩ := writeAll_cons.1 hw
    obtain ⟨_, rfl⟩ := write_ok hr hu
    rw [filterMap_cons_toList, List.mem_append, not_or] at hd
    obtain ⟨hgoal, htarget⟩ : w.goal e ≠ some label ∧ (w.written e).target ≠ some label := by
      refine goal_written (P := (· ≠ some label)) nofun ht fun other ho => ?_
      rintro ⟨⟩
      exact hd.1 (Option.mem_toList.2 ho)
    rw [idsTo_cons hu, if_neg hgoal]
    exact ih (hr.written e) htarget hd.2 hes

theorem flatMap_ite_eq {α β : Type} [DecidableEq α] {bs : List α} (h : bs.Nodup) {b : α}
    (hb : b ∈ bs) (xs : List β) : (bs.flatMap fun b' => if b = b' then xs else []) = xs := by
  induction bs with
  | nil => cases hb
  | cons b' bs ih =>
    obtain ⟨hnew, hbs⟩ := List.nodup_cons.1 h
    rw [List.flatMap_cons]
    rcases List.mem_cons.1 hb with rfl | hin
    · have hrest : (bs.flatMap fun b' => if b = b' then xs else []) = [] :=
        List.flatMap_eq_nil_iff.2 fun b' hb' => if_neg (ne_of_mem_of_not_mem hb' hnew).symm
      rw [if_pos rfl, hrest, List.append_nil]
    · rw [if_neg (ne_of_mem_of_not_mem hin hnew), ih hbs hin, List.nil_append]

/-- Whichever buffers events are written to, their ids are all there, each once. -/
theorem perm_idsTo {bs : List (Option String)} (hbs : bs.Nodup) (hnone : none ∈ bs)
    (h : w.Inside outer) (ht : w.target ∈ bs)
    (hd : ∀ label ∈ es.filterMap Event.definedLabel?, some label ∈ bs)
    (ha : ∀ e ∈ es, Anonymous e) (hw : w.writeAll es = (v, none)) :
    (bs.flatMap fun b => idsTo b w es).Perm
      (ownIds outer es ++
        (es.filterMap Event.definedLabel?).map fun label => noteId (v.number label)) := by
  induction es generalizing w outer with
  | nil =>
    have hnil : (bs.flatMap fun b => idsTo b w []) = [] :=
      List.flatMap_eq_nil_iff.2 fun _ _ => rfl
    rw [hnil]
    exact .nil
  | cons e es ih =>
    obtain ⟨u, hu, hes⟩ := writeAll_cons.1 hw
    obtain ⟨hacc, rfl⟩ := write_ok h.registered hu
    rw [List.forall_mem_cons] at ha
    rw [filterMap_cons_toList, List.forall_mem_append] at hd
    obtain ⟨hgoal, htarget⟩ : w.goal e ∈ bs ∧ (w.written e).target ∈ bs :=
      goal_written hnone ht fun label hl => hd.1 label (Option.mem_toList.2 hl)
    have hfirst := ids_pieces_of_run h ha.1 hw
    -- The event is written to just one of the buffers, so its ids come out of the sum once.
    have hrest := ih (h.written hacc) htarget hd.2 ha.2 hes
    calc bs.flatMap (fun b => idsTo b w (e :: es))
      _ = bs.flatMap (fun b => (if w.goal e = b then (w.pieces e).flatMap Piece.ids else []) ++
            idsTo b (w.written e) es) := by simp only [idsTo_cons hu]
      _ ~ (bs.flatMap fun b => if w.goal e = b then (w.pieces e).flatMap Piece.ids else []) ++
            bs.flatMap (fun b => idsTo b (w.written e) es) := (List.flatMap_append_perm ..).symm
      _ ~ (w.pieces e).flatMap Piece.ids ++ (ownIds (openFrom outer [e]) es ++
            (es.filterMap Event.definedLabel?).map fun label => noteId (v.number label)) := by
          rw [flatMap_ite_eq hbs hgoal]
          exact hrest.append_left _
      _ ~ ownIds outer (e :: es) ++
            ((e :: es).filterMap Event.definedLabel?).map fun label => noteId (v.number label) := by
          rw [hfirst, filterMap_cons_toList, List.map_append, ownIds, List.append_assoc,
            List.append_assoc]
          exact (List.perm_append_comm_assoc ..).append_left _

theorem legible_notesPieces {notes : List Note} (h : ∀ note ∈ notes,
    Reads note.html.text.toList (elementIds note.html.text)) (n : Nat) :
    ∀ p ∈ notesPieces n notes, p.Legible := by
  induction notes generalizing n with
  | nil => exact List.forall_mem_nil _
  | cons note notes ih =>
    rw [List.forall_mem_cons] at h
    refine List.forall_mem_append.2 ⟨?_, ih h.2 (n + 1)⟩
    rw [notePieces]
    split
    · exact List.forall_mem_singleton.2 ⟨List.forall_mem_nil _, List.forall_mem_singleton.2 h.1⟩
    · have hkeys := admits_isWord.noteAttributes (a := {}) (List.forall_mem_nil _) n
      have hitem : (Piece.opening "li" (noteAttributes {} n).texts).Legible :=
        ⟨named_opening (by decide) hkeys, List.forall_mem_nil _⟩
      exact List.forall_mem_cons.2 ⟨hitem, by decide⟩

theorem ids_notesPieces {notes : List Note} {n : Nat}
    (h : ∀ i note, notes[i]? = some note → v.number note.label = n + i) :
    (notesPieces n notes).flatMap Piece.ids =
      notes.flatMap fun note => (notePieces (v.number note.label) note).flatMap Piece.ids := by
  induction notes generalizing n with
  | nil => rfl
  | cons note notes ih =>
    have hrest : ∀ i other, notes[i]? = some other → v.number other.label = n + 1 + i := by
      intro i other ho
      rw [h (i + 1) other ho, Nat.add_right_comm]
      rfl
    rw [notesPieces, List.flatMap_append, ih hrest, List.flatMap_cons, h 0 note rfl]
    rfl

theorem map_number (hn : v.labels.Nodup) :
    v.labels.map v.number = List.range' 1 v.labels.length := by
  refine List.ext_getElem (by rw [List.length_map, List.length_range']) fun i hi _ => ?_
  rw [List.length_map] at hi
  rw [List.getElem_map, List.getElem_range', number_eq, hn.idxOf_getElem i hi, Nat.one_mul,
    Nat.add_comm]

theorem number_of_getElem? (hn : v.labels.Nodup) {i : Nat} {note : Note}
    (h : v.notes[i]? = some note) : v.number note.label = 1 + i := by
  have hnumber : (v.labels.map v.number)[i]? = some (v.number note.label) := by
    rw [labels, List.map_map, List.getElem?_map, h]
    rfl
  rw [map_number hn] at hnumber
  obtain ⟨_, hvalue⟩ := List.getElem?_eq_some_iff.1 hnumber
  rw [← hvalue, List.getElem_range', Nat.one_mul]

theorem reads_footerPieces {notes : List Note} (h : ∀ note ∈ notes,
    Reads note.html.text.toList (elementIds note.html.text)) (b : Buffer) :
    ∃ s, (b.addAll (footerPieces notes)).text = b.text ++ s ∧
      Reads s.toList ((notesPieces 1 notes).flatMap Piece.ids) := by
  unfold footerPieces
  split
  · next he =>
    rw [List.isEmpty_iff.1 he]
    exact ⟨"", String.append_empty.symm, reads_nil⟩
  · have hhead : ∀ p ∈ [Piece.freshLine, .opening "hr" [], .newline,
        .opening "aside" [("class", "footnotes"), ("role", "doc-endnotes")], .newline,
        .opening "ol" [], .newline], p.Legible ∧ p.ids = [] := by decide
    have htail : ∀ p ∈ [Piece.closing "ol", .newline, .closing "aside", .newline],
        p.Legible ∧ p.ids = [] := by decide
    have hnone {ps : List Piece} (hps : ∀ p ∈ ps, p.Legible ∧ p.ids = []) :
        ps.flatMap Piece.ids = [] := List.flatMap_eq_nil_iff.2 fun p hp => (hps p hp).2
    have hall := reads_addAll (List.forall_mem_append.2 ⟨List.forall_mem_append.2
      ⟨fun p hp => (hhead p hp).1, legible_notesPieces h 1⟩, fun p hp => (htail p hp).1⟩) b
    rw [List.flatMap_append, List.flatMap_append, hnone hhead, hnone htail, List.nil_append,
      List.append_nil] at hall
    exact hall

/-- The ids in the item of a note: those that were written to it, or its own if there are no
definitions to write it. -/
theorem ids_notePieces (hn : v.labels.Nodup) (hw : ({} : Writer).writeAll es = (v, none))
    {note : Note} (h : note ∈ v.notes)
    (hreads : Reads note.html.text.toList (idsTo (some note.label) {} es)) :
    (notePieces (v.number note.label) note).flatMap Piece.ids =
      idsTo (some note.label) {} es ++
        if note.label ∈ es.filterMap Event.definedLabel? then []
        else [noteId (v.number note.label)] := by
  have hdefined := defined_iff hw hn h
  rw [notePieces]
  cases hd : note.defined with
  | true =>
    rw [if_pos rfl, if_pos (hdefined.1 hd)]
    exact congrArg (· ++ []) hreads.elementIds_eq
  | false =>
    have hno : note.label ∉ es.filterMap Event.definedLabel? := by
      rw [← hdefined, hd]
      exact Bool.false_ne_true
    rw [if_neg Bool.false_ne_true, if_neg hno,
      idsTo_eq_nil inside_nothing.registered (by simp) hno hw]
    exact congrArg (· ++ []) (idsOf_noteAttributes (a := {}) (List.forall_mem_nil _) _)

theorem perm_labels (hd : (es.filterMap Event.definedLabel?).Nodup) :
    es.filterMap Event.definedLabel? ++
      (noteLabels es).filter (· ∉ es.filterMap Event.definedLabel?) ~ noteLabels es := by
  have hsub {label : String} (h : label ∈ es.filterMap Event.definedLabel?) :
      label ∈ noteLabels es := by
    obtain ⟨e, he, hlabel⟩ := List.mem_filterMap.1 h
    obtain ⟨a, rfl⟩ := Event.eq_start_of_definedLabel? hlabel
    exact List.mem_eraseDups.2 (List.mem_filterMap.2 ⟨_, he, rfl⟩)
  have hlabels := nodup_eraseDups (es.filterMap Event.noteLabel?)
  refine (List.perm_ext_iff_of_nodup ?_ hlabels).2 fun label => ?_
  · refine List.nodup_append'.2 ⟨hd, hlabels.filter _, List.disjoint_left.2 fun label hl hf => ?_⟩
    exact of_decide_eq_true (List.mem_filter.1 hf).2 hl
  · rw [List.mem_append, List.mem_filter, decide_eq_true_eq]
    constructor
    · rintro (hl | ⟨hl, _⟩)
      · exact hsub hl
      · exact hl
    · exact fun hl => (em _).imp_right fun hno => ⟨hl, hno⟩

theorem elementIds_withFooter (ha : ∀ e ∈ es, Anonymous e)
    (hw : ({} : Writer).writeAll es = (v, none)) (hn : v.labels.Nodup) :
    elementIds v.withFooter.main.text =
      idsTo none {} es ++ v.labels.flatMap fun label =>
        idsTo (some label) {} es ++ if label ∈ es.filterMap Event.definedLabel? then []
          else [noteId (v.number label)] := by
  have hreads (b : Option String) : Reads (v.buffer b).text.toList (idsTo b {} es) := by
    obtain ⟨s, hs, hids⟩ := reads_addAll (legible_piecesTo ha b {}) Buffer.empty
    rw [buffer_document hw, hs, Buffer.empty, String.empty_append]
    exact hids
  have hnote {note : Note} (h : note ∈ v.notes) :
      Reads note.html.text.toList (idsTo (some note.label) {} es) := by
    have hbuffer := hreads (some note.label)
    rwa [buffer, note?_of_mem hn h] at hbuffer
  obtain ⟨s, hs, hfooter⟩ := reads_footerPieces
    (fun note h => (hnote h).elementIds_eq ▸ hnote h) v.main
  have htext : v.withFooter.main.text = v.main.text ++ s := hs
  have hitems : (notesPieces 1 v.notes).flatMap Piece.ids = v.labels.flatMap fun label =>
      idsTo (some label) {} es ++ if label ∈ es.filterMap Event.definedLabel? then []
        else [noteId (v.number label)] := by
    rw [ids_notesPieces fun i note => number_of_getElem? hn, labels, List.flatMap_map]
    exact List.flatMap_congr fun note h => ids_notePieces hn hw h (hnote h)
  rw [← hitems, htext]
  refine Reads.elementIds_eq ?_
  rw [String.toList_append]
  exact (hreads none).append hfooter

theorem flatMap_ite_nil {α β : Type} (f : α → β) (p : α → Prop) [DecidablePred p] (xs : List α) :
    (xs.flatMap fun x => if p x then [] else [f x]) = (xs.filter (¬ p ·)).map f := by
  induction xs with
  | nil => rfl
  | cons x xs ih =>
    rw [List.flatMap_cons, ih, List.filter_cons]
    by_cases hp : p x <;> simp [hp]

/-- The ids of a document are those of its sections and headings and one for each note. -/
theorem perm_elementIds (ha : ∀ e ∈ es, Anonymous e)
    (hd : (es.filterMap Event.definedLabel?).Nodup) (hw : ({} : Writer).writeAll es = (v, none)) :
    elementIds v.withFooter.main.text ~
      ownIds [] es ++ (List.range' 1 (noteLabels es).length).map noteId := by
  have hlabels := labels_document hw
  have hn := nodup_labels hw
  have hbuffers : (none :: v.labels.map some).Nodup :=
    List.nodup_cons.2 ⟨by simp, hn.map (Option.some_injective _)⟩
  have hdefined : ∀ label ∈ es.filterMap Event.definedLabel?,
      some label ∈ none :: v.labels.map some := by
    intro label hl
    have hmem := (perm_labels hd).subset (List.mem_append_left _ hl)
    exact List.mem_cons_of_mem _ (List.mem_map_of_mem (hlabels ▸ hmem))
  have hruns := perm_idsTo hbuffers List.mem_cons_self inside_nothing List.mem_cons_self hdefined
    ha hw
  calc elementIds v.withFooter.main.text
    _ = idsTo none {} es ++ v.labels.flatMap fun label =>
          idsTo (some label) {} es ++ if label ∈ es.filterMap Event.definedLabel? then []
            else [noteId (v.number label)] := elementIds_withFooter ha hw hn
    _ ~ idsTo none {} es ++ ((v.labels.flatMap fun label => idsTo (some label) {} es) ++
          v.labels.flatMap fun label => if label ∈ es.filterMap Event.definedLabel? then []
            else [noteId (v.number label)]) := (List.flatMap_append_perm ..).symm.append_left _
    _ = (none :: v.labels.map some).flatMap (fun b => idsTo b {} es) ++
          (v.labels.filter (· ∉ es.filterMap Event.definedLabel?)).map fun label =>
            noteId (v.number label) := by
        rw [flatMap_ite_nil, List.flatMap_cons, List.flatMap_map, List.append_assoc]
    _ ~ (ownIds [] es ++ (es.filterMap Event.definedLabel?).map fun label =>
          noteId (v.number label)) ++ _ := hruns.append_right _
    _ ~ ownIds [] es ++ v.labels.map fun label => noteId (v.number label) := by
        rw [List.append_assoc, ← List.map_append, hlabels]
        exact ((perm_labels hd).map _).append_left _
    _ = ownIds [] es ++ (List.range' 1 (noteLabels es).length).map noteId := by
        rw [← hlabels, ← map_number hn, List.map_map]
        rfl

end Writer

theorem noteId_injective : Function.Injective Writer.noteId :=
  fun _ _ h => Nat.repr_injective ((String.append_right_inj _).1 h)

theorem perm_elementIds_renderHtml {es : List Event} {html : String}
    (ha : ∀ e ∈ es, Anonymous e) (hd : (es.filterMap Event.definedLabel?).Nodup)
    (h : (renderHtml (.ofList es)).result = .ok html) :
    elementIds html ~ ownIds [] es ++ (List.range' 1 (noteLabels es).length).map Writer.noteId := by
  obtain ⟨v, hw, _, hrender⟩ := renderHtml_ok h
  rw [hrender] at h
  cases h
  exact Writer.perm_elementIds ha hd hw

/-- Some ids and those of notes are apart if the former are, among themselves and from the notes. -/
theorem nodup_append_noteIds {ids : List String} {count : Nat} :
    (ids ++ (List.range' 1 count).map Writer.noteId).Nodup ↔
      ids.Nodup ∧ ∀ id ∈ ids, ∀ n, 1 ≤ n → n ≤ count → id ≠ Writer.noteId n := by
  have hnotes : ((List.range' 1 count).map Writer.noteId).Nodup :=
    (List.nodup_range' (s := 1) (n := count)).map noteId_injective
  rw [List.nodup_append, and_iff_right hnotes]
  refine and_congr_right fun _ => forall₂_congr fun id _ => ?_
  rw [List.forall_mem_map]
  refine forall_congr' fun n => ?_
  rw [List.mem_range'_1, Nat.add_comm 1 count, Nat.lt_succ_iff, and_imp]

end Html
end MarkupHtml
