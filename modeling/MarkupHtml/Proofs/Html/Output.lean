import MarkupHtml.Html.Writer

namespace MarkupHtml.Html

def Note.add (note : Note) (ps : List Piece) : Note :=
  { note with html := note.html.addAll ps }

@[simp] theorem Note.add_label (note : Note) (ps : List Piece) :
    (note.add ps).label = note.label := rfl

theorem Note.add_nil (note : Note) : note.add [] = note := rfl

theorem Note.add_add (note : Note) (ps qs : List Piece) :
    (note.add ps).add qs = note.add (ps ++ qs) := by
  simp only [add, Buffer.addAll_append]

namespace Writer

/-- Output goes to the document or to a note that is known. -/
def Registered (w : Writer) : Prop :=
  ∀ label, w.target = some label → (w.note? label).isSome = true

def buffer (w : Writer) : Option String → Buffer
  | none => w.main
  | some label => ((w.note? label).map Note.html).getD .empty

theorem note?_label {w : Writer} {label : String} {note : Note} (h : w.note? label = some note) :
    note.label = label := by
  have hf := List.find?_some h
  exact of_decide_eq_true hf

theorem note?_updateNote (w : Writer) (label other : String) {f : Note → Note}
    (hf : ∀ note, (f note).label = note.label) :
    (w.updateNote label f).note? other =
      (w.note? other).map fun note => if note.label = label then f note else note := by
  have hp : ((fun note => decide (note.label = other)) ∘
      fun note => if note.label = label then f note else note) =
        fun note : Note => decide (note.label = other) := by
    funext note
    rw [Function.comp_apply]
    split
    · rw [hf]
    · rfl
  rw [note?, updateNote, List.find?_map, hp]
  rfl

theorem note?_register (w : Writer) (label other : String) :
    (w.register label).note? other =
      if label = other then some ((w.note? label).getD { label }) else w.note? other := by
  cases h : w.note? label with
  | some note =>
    have hr : w.register label = w := by rw [register, h]
    rw [hr]
    split
    · next he =>
      subst he
      rw [h]
      rfl
    · rfl
  | none =>
    have hr : w.register label = { w with notes := w.notes ++ [{ label }] } := by
      rw [register, h]
    rw [hr, note?, List.find?_append]
    split
    · next he =>
      subst he
      rw [note?] at h
      rw [h]
      simp
    · next he =>
      rw [note?, List.find?_singleton]
      simp [he]

@[simp] theorem register_target (w : Writer) (label : String) :
    (w.register label).target = w.target := by
  unfold register
  split <;> rfl

@[simp] theorem register_opened (w : Writer) (label : String) :
    (w.register label).opened = w.opened := by
  unfold register
  split <;> rfl

@[simp] theorem register_tightness (w : Writer) (label : String) :
    (w.register label).tightness = w.tightness := by
  unfold register
  split <;> rfl

@[simp] theorem register_tablePart (w : Writer) (label : String) :
    (w.register label).tablePart = w.tablePart := by
  unfold register
  split <;> rfl

theorem buffer_register (w : Writer) (label : String) (b : Option String) :
    (w.register label).buffer b = w.buffer b := by
  cases b with
  | none =>
    unfold register
    split <;> rfl
  | some other =>
    rw [buffer, note?_register]
    split
    · next he =>
      subst he
      rw [buffer]
      cases w.note? label <;> rfl
    · rfl

theorem Registered.register {w : Writer} (h : w.Registered) (label : String) :
    (w.register label).Registered := by
  intro other ho
  rw [register_target] at ho
  rw [note?_register]
  split
  · rfl
  · exact h other ho

def put (w : Writer) (ps : List Piece) : Writer :=
  match w.target with
  | none => { w with main := w.main.addAll ps }
  | some label => w.updateNote label fun note => note.add ps

@[simp] theorem put_target (w : Writer) (ps : List Piece) : (w.put ps).target = w.target := by
  unfold put
  split <;> rfl

@[simp] theorem put_opened (w : Writer) (ps : List Piece) : (w.put ps).opened = w.opened := by
  unfold put
  split <;> rfl

@[simp] theorem put_tightness (w : Writer) (ps : List Piece) :
    (w.put ps).tightness = w.tightness := by
  unfold put
  split <;> rfl

@[simp] theorem put_tablePart (w : Writer) (ps : List Piece) :
    (w.put ps).tablePart = w.tablePart := by
  unfold put
  split <;> rfl

theorem note?_put (w : Writer) (ps : List Piece) (label : String) :
    (w.put ps).note? label = (w.note? label).map fun note =>
      if w.target = some note.label then note.add ps else note := by
  unfold put
  split
  · next ht =>
    rw [ht]
    exact Option.map_id'.symm
  · next other ht =>
    refine (note?_updateNote w other label fun note => Note.add_label note ps).trans ?_
    rw [ht]
    congr 1
    funext note
    simp only [Option.some.injEq, eq_comm]

theorem Registered.put {w : Writer} (h : w.Registered) (ps : List Piece) :
    (w.put ps).Registered := by
  intro label hl
  rw [put_target] at hl
  rw [note?_put, Option.isSome_map]
  exact h label hl

theorem put_nil (w : Writer) : w.put [] = w := by
  unfold put
  split
  · rfl
  · simp only [updateNote, Note.add_nil, ite_self, List.map_id']

theorem put_append (w : Writer) (ps qs : List Piece) : (w.put ps).put qs = w.put (ps ++ qs) := by
  unfold put
  cases ht : w.target with
  | none => simp only [Buffer.addAll_append]
  | some label =>
    simp only [updateNote, ht, List.map_map]
    congr 1
    apply List.map_congr_left
    intro note _
    by_cases hl : note.label = label
    · simp only [Function.comp_apply, if_pos hl, Note.add_label, Note.add_add]
    · simp only [Function.comp_apply, if_neg hl]

theorem emitPiece_eq {w : Writer} (h : w.Registered) (p : Piece) :
    w.emitPiece p = .ok (w.put [p]) := by
  unfold emitPiece put
  cases ht : w.target with
  | none => rfl
  | some label =>
    obtain ⟨note, hn⟩ := Option.isSome_iff_exists.1 (h label ht)
    simp only [hn]
    rfl

theorem emit_eq {w : Writer} (h : w.Registered) (ps : List Piece) : w.emit ps = .ok (w.put ps) := by
  induction ps generalizing w with
  | nil => rw [emit, put_nil]
  | cons p ps ih =>
    rw [emit, emitPiece_eq h]
    exact (ih (h.put [p])).trans (congrArg Except.ok (put_append w [p] ps))

theorem buffer_put {w : Writer} (h : w.Registered) (ps : List Piece) (b : Option String) :
    (w.put ps).buffer b = if b = w.target then (w.buffer b).addAll ps else w.buffer b := by
  cases b with
  | none =>
    cases ht : w.target with
    | none => simp only [buffer, put, ht, if_true]
    | some label => simp [buffer, put, ht, updateNote]
  | some label =>
    rw [buffer, note?_put, buffer]
    cases hn : w.note? label with
    | none =>
      have hne : ¬ some label = w.target := by
        intro ht
        have hr := h label ht.symm
        rw [hn] at hr
        cases hr
      rw [if_neg hne]
      rfl
    | some note =>
      have hl : note.label = label := note?_label hn
      simp only [Option.map_some, Option.getD_some, hl]
      by_cases ht : some label = w.target
      · rw [if_pos ht, if_pos ht.symm]
        rfl
      · rw [if_neg ht, if_neg fun h => ht h.symm]

/-- Where an event is written. The item of a note is written to the note itself. -/
def goal (w : Writer) : Event → Option String
  | .start (.footnote label) _ => some label
  | _ => w.target

def pieces (w : Writer) : Event → List Piece
  | .start c a => (w.enter c).startPieces c a
  | .stop c => w.stopPieces c
  | .footnoteReference label => (w.register label).leafPieces (.footnoteReference label)
  | e => w.leafPieces e

def written (w : Writer) : Event → Writer
  | .start c a => { (w.enter c).put (w.pieces (.start c a)) with opened := c.key :: w.opened }
  | .stop c => ({ w with opened := w.opened.tail }.put (w.pieces (.stop c))).leave c
  | .footnoteReference label =>
    (w.register label).put (w.pieces (.footnoteReference label))
  | e => w.put (w.pieces e)

/-- Whether an event is no end, or the end of the innermost open container. -/
def Accepts (w : Writer) : Event → Prop
  | .stop c => w.opened.head? = some c.key ∧ w.hasListFor c = true
  | _ => True

theorem enter_footnote (w : Writer) (label : String) :
    ∃ journal, w.enter (.footnote label) =
      { (w.register label).updateNote label fun note => { note with defined := true } with
        target := some label, journal } := by
  simp only [enter]
  split
  · exact ⟨_, rfl⟩
  · exact ⟨_, rfl⟩

theorem buffer_define (w : Writer) (label : String) (b : Option String) :
    (w.updateNote label fun note => { note with defined := true }).buffer b = w.buffer b := by
  cases b with
  | none => rfl
  | some other =>
    have hn := note?_updateNote w label other (f := fun note => { note with defined := true })
      fun _ => rfl
    rw [buffer, hn, buffer, Option.map_map]
    congr 2
    funext note
    by_cases hl : note.label = label
    · simp only [Function.comp_apply, if_pos hl]
    · simp only [Function.comp_apply, if_neg hl]

theorem buffer_enter (w : Writer) (c : Container) (b : Option String) :
    (w.enter c).buffer b = w.buffer b := by
  cases c with
  | footnote label =>
    obtain ⟨journal, he⟩ := w.enter_footnote label
    rw [he, ← buffer_register w label b, ← buffer_define (w.register label) label b]
    cases b <;> rfl
  | _ => cases b <;> rfl

@[simp] theorem enter_opened (w : Writer) (c : Container) : (w.enter c).opened = w.opened := by
  cases c with
  | footnote label =>
    obtain ⟨journal, he⟩ := w.enter_footnote label
    rw [he]
    exact register_opened w label
  | _ => rfl

theorem enter_target (w : Writer) (c : Container) (a : Attributes) :
    (w.enter c).target = w.goal (.start c a) := by
  cases c with
  | footnote label =>
    obtain ⟨journal, he⟩ := w.enter_footnote label
    rw [he]
    rfl
  | _ => rfl

theorem Registered.enter {w : Writer} (h : w.Registered) (c : Container) :
    (w.enter c).Registered := by
  cases c with
  | footnote label =>
    intro other ho
    obtain ⟨journal, he⟩ := w.enter_footnote label
    rw [he] at ho ⊢
    cases ho
    have hn := note?_updateNote (w.register label) label label
      (f := fun note => { note with defined := true }) fun _ => rfl
    change (Writer.note? (Writer.updateNote _ _ _) label).isSome = true
    rw [hn, note?_register, if_pos rfl]
    rfl
  | _ => exact h

theorem Registered.popped {w : Writer} (h : w.Registered) :
    ({ w with opened := w.opened.tail } : Writer).Registered := h

theorem buffer_leave (w : Writer) (c : ContainerEnd) (b : Option String) :
    (w.leave c).buffer b = w.buffer b := by
  cases c <;> cases b <;> rfl

theorem Registered.leave {w : Writer} (h : w.Registered) (c : ContainerEnd) :
    (w.leave c).Registered := by
  cases c with
  | footnote => exact nofun
  | _ => exact h

/-- An event that fits is written whenever all that has to be written of it is text. -/
theorem write_eq {w : Writer} {e : Event} (h : w.Registered) (ha : w.Accepts e) :
    w.write e =
      if e.isText || w.dropsAttributes e then (w.written e, none) else (w, some .noText) := by
  unfold write
  congr 1
  cases e with
  | start c a =>
    have hput := emit_eq (h.enter c) ((w.enter c).startPieces c a)
    simp only [writeText, writeStart, hput, written, pieces, put_opened, enter_opened]
  | stop c =>
    obtain ⟨hhead, hlist⟩ := ha
    have hlist' : ({ w with opened := w.opened.tail } : Writer).hasListFor c = true := hlist
    have hput := emit_eq h.popped ({ w with opened := w.opened.tail }.stopPieces c)
    simp only [writeText, hhead, if_true, writeStop, hlist', hput]
    rfl
  | footnoteReference label =>
    have hput := emit_eq (h.register label)
      ((w.register label).leafPieces (.footnoteReference label))
    simp only [writeText, hput]
    rfl
  | _ => simp only [writeText, emit_eq h, written, pieces]

theorem write_cases {w : Writer} {e : Event} (h : w.Registered) (ha : w.Accepts e) :
    w.write e = (w.written e, none) ∨ (w.write e = (w, some .noText) ∧ e.isText = false) := by
  rw [write_eq h ha]
  by_cases ht : (e.isText || w.dropsAttributes e) = true
  · exact .inl (if_pos ht)
  · exact .inr ⟨if_neg ht, (Bool.or_eq_false_iff.1 (Bool.eq_false_iff.2 ht)).1⟩

theorem Registered.written {w : Writer} (h : w.Registered) (e : Event) :
    (w.written e).Registered := by
  cases e with
  | start c a => exact (h.enter c).put _
  | stop c =>
    exact (h.popped.put _).leave c
  | footnoteReference label => exact (h.register label).put _
  | _ => exact h.put _

/-- Writing an event adds its pieces to one buffer. -/
theorem buffer_written {w : Writer} (h : w.Registered) (e : Event) (b : Option String) :
    (w.written e).buffer b = if b = w.goal e then (w.buffer b).addAll (w.pieces e)
      else w.buffer b := by
  cases e with
  | start c a =>
    have hput := buffer_put (h.enter c) (w.pieces (.start c a)) b
    rw [enter_target w c a, buffer_enter] at hput
    rw [← hput]
    cases b <;> rfl
  | stop c =>
    have hput := buffer_put h.popped (w.pieces (.stop c)) b
    rw [written, buffer_leave, hput]
    cases b <;> rfl
  | footnoteReference label =>
    have hput := buffer_put (h.register label) (w.pieces (.footnoteReference label)) b
    rw [register_target, buffer_register] at hput
    exact hput
  | _ => exact buffer_put h _ b

theorem written_opened (w : Writer) (e : Event) :
    (w.written e).opened =
      match e with
      | .start c _ => c.key :: w.opened
      | .stop _ => w.opened.tail
      | _ => w.opened := by
  cases e with
  | start c a => rfl
  | stop c =>
    have hl (v : Writer) : (v.leave c).opened = v.opened := by cases c <;> rfl
    rw [written, hl, put_opened]
  | footnoteReference label => rw [written, put_opened, register_opened]
  | _ => exact put_opened w _

theorem written_tightness (w : Writer) (e : Event) :
    (w.written e).tightness =
      match e with
      | .start (.list _ tight) _ => tight :: w.tightness
      | .stop (.list _) => w.tightness.tail
      | _ => w.tightness := by
  cases e with
  | start c a =>
    have hl : (w.written (.start c a)).tightness = (w.enter c).tightness := put_tightness _ _
    rw [hl]
    cases c with
    | footnote label =>
      obtain ⟨journal, he⟩ := w.enter_footnote label
      rw [he]
      exact register_tightness w label
    | _ => rfl
  | stop c =>
    have hl : (w.written (.stop c)).tightness = (w.leave c).tightness := by
      cases c <;> simp only [written, leave, put_tightness]
    rw [hl]
    cases c <;> rfl
  | footnoteReference label => exact (put_tightness _ _).trans (register_tightness w label)
  | _ => exact put_tightness w _

theorem hasListFor_of_count_le {w : Writer} {c : ContainerEnd}
    (hlists : w.opened.count .list ≤ w.tightness.length)
    (hc : w.opened.head? = some c.key) : w.hasListFor c = true := by
  cases c with
  | list kind =>
    have hmem : ContainerKey.list ∈ w.opened := List.mem_of_mem_head? hc
    have hcount := List.count_pos_iff.2 hmem
    cases ht : w.tightness with
    | nil =>
      rw [ht, List.length_nil] at hlists
      omega
    | cons tight outer => simp only [hasListFor, ht, List.isEmpty_cons, Bool.not_false]
  | _ => rfl

/-- With an event that fits, open lists and known ones grow or shrink alike. -/
theorem lists_written {w : Writer} {e : Event} (ha : w.Accepts e) :
    (w.written e).tightness.length + w.opened.count .list =
      w.tightness.length + (w.written e).opened.count .list := by
  rw [written_tightness, written_opened]
  cases e with
  | start c a =>
    cases c with
    | list kind tight =>
      change w.tightness.length + 1 + _ = _ + (ContainerKey.list :: w.opened).count .list
      rw [List.count_cons_self, Nat.add_right_comm, Nat.add_assoc]
    | _ => exact congrArg _ (List.count_cons_of_ne (by exact nofun)).symm
  | stop c =>
    obtain ⟨hhead, hlist⟩ := ha
    obtain ⟨outer, ho⟩ := List.head?_eq_some_iff.1 hhead
    rw [ho]
    cases c with
    | list kind =>
      obtain ⟨tight, ts, ht⟩ := List.exists_cons_of_ne_nil (l := w.tightness) fun hnil => by
        simp only [hasListFor, hnil, List.isEmpty_nil, Bool.not_true, Bool.false_eq_true] at hlist
      rw [ht]
      change ts.length + (ContainerKey.list :: outer).count .list = ts.length + 1 + _
      rw [List.count_cons_self, Nat.add_right_comm, Nat.add_assoc]
      rfl
    | _ => exact congrArg _ (List.count_cons_of_ne (by exact nofun))
  | _ => rfl

theorem written_target (w : Writer) (e : Event) :
    (w.written e).target =
      match e with
      | .start (.footnote label) _ => some label
      | .stop .footnote => none
      | _ => w.target := by
  cases e with
  | start c a =>
    have hl : (w.written (.start c a)).target = (w.enter c).target := put_target _ _
    rw [hl, enter_target w c a]
    cases c <;> rfl
  | stop c =>
    cases c with
    | footnote => rfl
    | _ => simp only [written, leave, put_target]
  | footnoteReference label => exact (put_target _ _).trans (register_target w label)
  | _ => exact put_target w _

theorem written_tablePart (w : Writer) (e : Event) :
    (w.written e).tablePart =
      match e with
      | .start .tableHead _ => some .head
      | .start .tableBody _ => some .body
      | .stop .table | .stop .tableHead => none
      | _ => w.tablePart := by
  cases e with
  | start c a =>
    have hl : (w.written (.start c a)).tablePart = (w.enter c).tablePart := put_tablePart _ _
    rw [hl]
    cases c with
    | footnote label =>
      obtain ⟨journal, he⟩ := w.enter_footnote label
      rw [he]
      exact register_tablePart w label
    | _ => rfl
  | stop c =>
    cases c with
    | table | tableHead => rfl
    | _ => simp only [written, leave, put_tablePart]
  | footnoteReference label => exact (put_tablePart _ _).trans (register_tablePart w label)
  | _ => exact put_tablePart w _

end Writer
end MarkupHtml.Html
