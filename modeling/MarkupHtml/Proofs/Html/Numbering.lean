import MarkupHtml.Proofs.Html.Acceptance
import MarkupHtml.Proofs.Html.Run
import Mathlib.Data.List.Basic

namespace MarkupHtml

theorem filterMap_cons_toList {α β : Type} (f : α → Option β) (x : α) (xs : List α) :
    (x :: xs).filterMap f = (f x).toList ++ xs.filterMap f := by
  cases h : f x with
  | none => exact List.filterMap_cons_none h
  | some b => exact List.filterMap_cons_some h

def Event.noteLabel? : Event → Option String
  | .footnoteReference label => some label
  | .start (.footnote label) _ => some label
  | _ => none

namespace Html

/-- The labels of all notes, in the order in which they occur first. -/
def noteLabels (es : List Event) : List String := (es.filterMap Event.noteLabel?).eraseDups

theorem nodup_eraseDups (labels : List String) : labels.eraseDups.Nodup := by
  match labels with
  | [] => exact .nil
  | label :: labels =>
    have hshorter : (labels.filter fun other => !other == label).length < labels.length + 1 :=
      Nat.lt_succ_of_le (List.length_filter_le _ labels)
    rw [List.eraseDups_cons, List.nodup_cons, List.mem_eraseDups]
    exact ⟨by simp, nodup_eraseDups _⟩
termination_by labels.length

def noteNumber (es : List Event) (label : String) : Nat := (noteLabels es).idxOf label + 1

namespace Writer

def labels (w : Writer) : List String := w.notes.map Note.label

theorem numberFrom_getD (label : String) (n : Nat) (notes : List Note) :
    (numberFrom label n notes).getD (n + notes.length) =
      (notes.map Note.label).idxOf label + n := by
  induction notes generalizing n with
  | nil => exact (Nat.zero_add n).symm
  | cons note notes ih =>
    rw [List.map_cons, numberFrom]
    by_cases hl : note.label = label
    · subst hl
      rw [if_pos rfl, List.idxOf_cons_self, Nat.zero_add]
      rfl
    · rw [if_neg hl, List.idxOf_cons_ne _ hl, List.length_cons]
      have hrest : n + (notes.length + 1) = (n + 1) + notes.length := by omega
      rw [hrest, ih (n + 1)]
      omega

theorem number_eq (w : Writer) (label : String) : w.number label = w.labels.idxOf label + 1 := by
  have h := numberFrom_getD label 1 w.notes
  rw [Nat.add_comm 1] at h
  exact h

theorem isSome_note?_iff {w : Writer} {label : String} :
    (w.note? label).isSome = true ↔ label ∈ w.labels := by
  rw [note?, List.find?_isSome, labels, List.mem_map]
  simp only [decide_eq_true_eq]

theorem register_eq (w : Writer) (label : String) :
    w.register label =
      if label ∈ w.labels then w else { w with notes := w.notes ++ [{ label }] } := by
  rw [register]
  cases h : w.note? label with
  | some note => rw [if_pos (isSome_note?_iff.1 (Option.isSome_of_eq_some h))]
  | none =>
    rw [if_neg]
    intro hin
    rw [← isSome_note?_iff, h] at hin
    cases hin

theorem labels_register (w : Writer) (label : String) :
    (w.register label).labels =
      if label ∈ w.labels then w.labels else w.labels ++ [label] := by
  rw [register_eq]
  split
  · rfl
  · exact List.map_append

theorem labels_updateNote (w : Writer) (label : String) {f : Note → Note}
    (hf : ∀ note, (f note).label = note.label) : (w.updateNote label f).labels = w.labels := by
  rw [labels, updateNote, List.map_map]
  refine List.map_congr_left fun note _ => ?_
  rw [Function.comp_apply]
  split
  · exact hf note
  · rfl

theorem labels_put (w : Writer) (ps : List Piece) : (w.put ps).labels = w.labels := by
  rw [put]
  split
  · rfl
  · exact labels_updateNote w _ fun _ => rfl

theorem labels_enter_footnote (w : Writer) (label : String) :
    (w.enter (.footnote label)).labels = (w.register label).labels := by
  obtain ⟨journal, he⟩ := w.enter_footnote label
  rw [he]
  exact labels_updateNote (w.register label) label fun _ => rfl

theorem labels_written (w : Writer) (e : Event) :
    (w.written e).labels =
      match e.noteLabel? with
      | some label => (w.register label).labels
      | none => w.labels := by
  cases e with
  | start c a =>
    refine (labels_put (w.enter c) _).trans ?_
    cases c with
    | footnote label => exact labels_enter_footnote w label
    | _ => rfl
  | stop c =>
    have hleave (v : Writer) : (v.leave c).labels = v.labels := by cases c <;> rfl
    exact (hleave _).trans (labels_put _ _)
  | footnoteReference label => exact labels_put _ _
  | _ => exact labels_put w _

theorem labels_register_eraseDups {w : Writer} {seen : List String} (h : w.labels = seen.eraseDups)
    (label : String) : (w.register label).labels = (seen ++ [label]).eraseDups := by
  rw [labels_register, h, List.eraseDups_append]
  by_cases hl : label ∈ seen
  · rw [if_pos (List.mem_eraseDups.2 hl)]
    simp [List.removeAll, hl]
  · rw [if_neg (mt List.mem_eraseDups.1 hl)]
    simp [List.removeAll, List.eraseDups_cons, hl]

theorem labels_writeAll {w v : Writer} {es : List Event} {seen : List String} (hr : w.Registered)
    (hw : w.writeAll es = (v, none)) (h : w.labels = seen.eraseDups) :
    v.labels = (seen ++ es.filterMap Event.noteLabel?).eraseDups := by
  induction es generalizing w seen with
  | nil =>
    cases hw
    rw [h, List.filterMap_nil, List.append_nil]
  | cons e es ih =>
    obtain ⟨u, hu, hes⟩ := writeAll_cons.1 hw
    obtain ⟨_, rfl⟩ := write_ok hr hu
    have hstep := labels_written w e
    cases hl : e.noteLabel? with
    | none =>
      rw [hl] at hstep
      rw [List.filterMap_cons_none hl]
      exact ih (hr.written e) hes (hstep.trans h)
    | some label =>
      rw [hl] at hstep
      rw [List.filterMap_cons_some hl, List.append_cons]
      exact ih (hr.written e) hes (hstep.trans (labels_register_eraseDups h label))

theorem labels_document {v : Writer} {es : List Event}
    (hw : ({} : Writer).writeAll es = (v, none)) : v.labels = noteLabels es := by
  have hr : ({} : Writer).Registered := nofun
  exact labels_writeAll hr hw List.eraseDups_nil.symm

theorem nodup_labels {v : Writer} {es : List Event} (hw : ({} : Writer).writeAll es = (v, none)) :
    v.labels.Nodup := by
  rw [labels_document hw]
  exact nodup_eraseDups _

theorem labels_writeAll_append {w v : Writer} {es : List Event} (hr : w.Registered)
    (hw : w.writeAll es = (v, none)) : ∃ later, v.labels = w.labels ++ later := by
  induction es generalizing w with
  | nil =>
    cases hw
    exact ⟨[], (List.append_nil _).symm⟩
  | cons e es ih =>
    obtain ⟨u, hu, hes⟩ := writeAll_cons.1 hw
    obtain ⟨_, rfl⟩ := write_ok hr hu
    obtain ⟨later, hlater⟩ := ih (hr.written e) hes
    have hstep := labels_written w e
    cases hl : e.noteLabel? with
    | none =>
      simp only [hl] at hstep
      exact ⟨later, by rw [hlater, hstep]⟩
    | some label =>
      simp only [hl, labels_register] at hstep
      split at hstep
      · exact ⟨later, by rw [hlater, hstep]⟩
      · exact ⟨label :: later, by rw [hlater, hstep, List.append_assoc, List.singleton_append]⟩

/-- The number of a label that is known never changes. -/
theorem number_writeAll {w v : Writer} {es : List Event} (hr : w.Registered)
    (hw : w.writeAll es = (v, none)) {label : String} (hl : label ∈ w.labels) :
    v.number label = w.number label := by
  obtain ⟨later, hlater⟩ := labels_writeAll_append hr hw
  rw [number_eq, number_eq, hlater, List.idxOf_append_of_mem hl]

theorem mem_labels_register (w : Writer) (label : String) : label ∈ (w.register label).labels := by
  rw [labels_register]
  split
  · assumption
  · exact List.mem_append_right _ List.mem_cons_self

theorem number_congr {w v : Writer} (h : w.labels = v.labels) (label : String) :
    w.number label = v.number label := by
  rw [number_eq, number_eq, h]

theorem number_register {w v : Writer} {e : Event} {es : List Event} {label : String}
    (hr : w.Registered) (hw : w.writeAll (e :: es) = (v, none)) (hl : e.noteLabel? = some label) :
    (w.register label).number label = v.number label := by
  obtain ⟨u, hu, hes⟩ := writeAll_cons.1 hw
  obtain ⟨_, rfl⟩ := write_ok hr hu
  have hlabels : (w.written e).labels = (w.register label).labels := by
    rw [labels_written, hl]
  have hmem : label ∈ (w.written e).labels := hlabels ▸ mem_labels_register w label
  rw [number_writeAll (hr.written e) hes hmem]
  exact number_congr hlabels.symm label

end Writer

def notedPieces (n : Nat) : Event → List Piece
  | .footnoteReference _ => Writer.referencePieces n
  | .start (.footnote _) a => Writer.block "li" (Writer.noteAttributes a n)
  | _ => []

theorem Writer.pieces_note (w : Writer) {e : Event} {label : String}
    (he : e.noteLabel? = some label) :
    w.pieces e = notedPieces ((w.register label).number label) e := by
  cases e with
  | start c a =>
    cases c with
    | footnote other =>
      cases he
      rw [← number_congr (labels_enter_footnote w label) label]
      rfl
    | _ => cases he
  | footnoteReference other =>
    cases he
    rfl
  | _ => cases he

/-- An event of a note, behind others, is written with the number `n`. -/
def WritesNote (before : List Event) (e : Event) (n : Nat) : Prop :=
  ∃ w w', ({} : Writer).writeAll before = (w, none) ∧ w.write e = (w', none) ∧
    w'.buffer (w.goal e) = (w.buffer (w.goal e)).addAll (notedPieces n e)

/-- Each event of a note is written with the number that its label has in the whole document. -/
theorem writesNote_of_writeAll {before after : List Event} {e : Event} {label : String}
    {v : Writer} (hw : ({} : Writer).writeAll (before ++ e :: after) = (v, none))
    (he : e.noteLabel? = some label) :
    WritesNote before e (noteNumber (before ++ e :: after) label) := by
  have hr : ({} : Writer).Registered := nofun
  obtain ⟨w, hbefore, hrest⟩ := Writer.writeAll_append.1 hw
  obtain ⟨w', hstep, _⟩ := Writer.writeAll_cons.1 hrest
  have hw' := hr.writeAll hbefore
  refine ⟨w, w', hbefore, hstep, ?_⟩
  obtain ⟨_, rfl⟩ := Writer.write_ok hw' hstep
  have hnumber := Writer.number_register hw' hrest he
  rw [Writer.number_eq v, Writer.labels_document hw] at hnumber
  rw [Writer.buffer_written hw', if_pos rfl, w.pieces_note he, hnumber]
  rfl

theorem noteNumber_inj {es : List Event} {label other : String} (h : label ∈ noteLabels es) :
    noteNumber es label = noteNumber es other ↔ label = other :=
  Nat.add_right_cancel_iff.trans (List.idxOf_inj h)

/-- A writer that has met the notes `seen`, those of the events that it holds back among them. -/
structure Met (w : Writer) (held : Held) (seen : List String) : Prop where
  registered : w.Registered
  begins : held.Begins
  labels : ∃ known, w.labels = known.eraseDups ∧
    known ++ held.events.filterMap Event.noteLabel? = seen

variable {marker : Option String} {w w' : Writer} {held held' : Held} {seen : List String}
  {e : Event} {x : Stream} {html : SplitHtml}

theorem noteLabel?_of_isParagraphStart (h : isParagraphStart e = true) : e.noteLabel? = none := by
  unfold isParagraphStart at h
  split at h
  · rfl
  · cases h

theorem Met.writeAll (h : Met w held seen) (hw : w.writeAll held.events = (w', none)) :
    Met w' .none seen := by
  obtain ⟨known, hknown, hseen⟩ := h.labels
  refine ⟨h.registered.writeAll hw, trivial, seen, ?_, List.append_nil _⟩
  rw [Writer.labels_writeAll h.registered hw hknown, hseen]

theorem Met.acceptFresh (h : Met w .none seen) (ha : acceptFresh marker w e = (w', held', none)) :
    Met w' held' (seen ++ [e].filterMap Event.noteLabel?) := by
  obtain ⟨known, hknown, hseen⟩ := h.labels
  rw [Held.events, List.filterMap_nil, List.append_nil] at hseen
  subst hseen
  unfold Html.acceptFresh at ha
  split at ha
  · next hm =>
    cases ha
    exact ⟨h.registered, (Bool.and_eq_true_iff.1 hm).2, known, hknown, rfl⟩
  · cases hw : w.write e with
    | mk u err =>
      rw [hw] at ha
      cases ha
      have hall : w.writeAll [e] = (w', none) := Writer.writeAll_cons.2 ⟨w', hw, rfl⟩
      exact ⟨h.registered.writeAll hall, trivial, _,
        Writer.labels_writeAll h.registered hall hknown, List.append_nil _⟩

theorem Writer.labels_markSplit (w : Writer) : w.markSplit.labels = w.labels := by
  unfold Writer.markSplit
  split <;> rfl

theorem Writer.Registered.markSplit (h : w.Registered) : w.markSplit.Registered := by
  unfold Writer.markSplit
  split
  · exact h
  · exact h

/-- A marker paragraph that is left out has no notes. -/
theorem Met.accept (h : Met w held seen) (ha : accept marker w held e = (w', held', none)) :
    Met w' held' (seen ++ [e].filterMap Event.noteLabel?) := by
  cases held with
  | none => exact h.acceptFresh ha
  | one p =>
    cases ha
    obtain ⟨known, hknown, rfl⟩ := h.labels
    refine ⟨h.registered, h.begins, known, hknown, ?_⟩
    rw [List.append_assoc, ← List.filterMap_append]
    rfl
  | two p x =>
    by_cases hm : marker.map Event.str = some x ∧ e = .stop .paragraph
    · rw [Html.accept, if_pos hm] at ha
      cases ha
      obtain ⟨hx, rfl⟩ := hm
      obtain ⟨m, _, rfl⟩ := Option.map_eq_some_iff.1 hx
      obtain ⟨known, hknown, rfl⟩ := h.labels
      have hnone : (Held.two p (.str m)).events.filterMap Event.noteLabel? = [] :=
        List.filterMap_cons_none (noteLabel?_of_isParagraphStart h.begins)
      refine ⟨h.registered.markSplit, trivial, known, (Writer.labels_markSplit w).trans hknown, ?_⟩
      rw [hnone, List.append_nil]
      rfl
    · rw [Html.accept, if_neg hm] at ha
      cases hw : w.writeAll [p, x] with
      | mk u err =>
        rw [hw] at ha
        cases err with
        | some err => cases ha
        | none => exact (h.writeAll hw).acceptFresh ha

theorem Met.conclude (h : Met w held seen) (hc : conclude w held = (w', .ok html)) :
    ∃ v : Writer, w' = v.withFooter ∧ html = w'.split ∧ v.labels = seen.eraseDups := by
  unfold Html.conclude at hc
  cases hw : w.writeAll held.events with
  | mk v err =>
    rw [hw] at hc
    cases err with
    | some err => cases hc
    | none =>
      obtain ⟨known, hknown, hseen⟩ := (h.writeAll hw).labels
      rw [Held.events, List.filterMap_nil, List.append_nil] at hseen
      subst hseen
      simp only [Writer.finish] at hc
      cases hu : v.unclosed? with
      | some err =>
        rw [hu] at hc
        cases hc
      | none =>
        rw [hu] at hc
        cases hc
        exact ⟨v, rfl, rfl, hknown⟩

theorem Met.writeFrom (h : Met w held seen) (hw : writeFrom marker w held x = (w', .ok html)) :
    ∃ v : Writer, w' = v.withFooter ∧ html = w'.split ∧
      v.labels = (seen ++ x.events.filterMap Event.noteLabel?).eraseDups := by
  induction x generalizing w held seen with
  | done =>
    obtain ⟨v, hv, hhtml, hlabels⟩ := h.conclude hw
    refine ⟨v, hv, hhtml, ?_⟩
    rw [hlabels, Stream.events, List.filterMap_nil, List.append_nil]
  | fail err => cases hw
  | report n rest ih =>
    have hreport : Met (w.report n) held seen := ⟨h.registered, h.begins, h.labels⟩
    exact ih hreport hw
  | emit e rest ih =>
    rw [Html.writeFrom] at hw
    split at hw
    · cases hw
    · next hstep =>
      obtain ⟨v, hv, hhtml, hlabels⟩ := ih (h.accept hstep) hw
      refine ⟨v, hv, hhtml, ?_⟩
      rw [hlabels, List.append_assoc, ← List.filterMap_append]
      rfl

theorem met_nothing : Met {} .none [] := ⟨nofun, trivial, [], List.eraseDups_nil.symm, rfl⟩

/-- The writer behind a document knows the notes of all its events, and then writes them. -/
theorem labels_of_writeHtml (h : (writeHtml marker x).result = .ok html) :
    ∃ v : Writer, writeFrom marker {} .none x = (v.withFooter, .ok v.withFooter.split) ∧
      html = v.withFooter.split ∧ v.labels = noteLabels x.events := by
  have hrun : writeFrom marker {} .none x = ((writeFrom marker {} .none x).1, .ok html) :=
    Prod.ext rfl h
  obtain ⟨v, hv, hhtml, hlabels⟩ := met_nothing.writeFrom hrun
  rw [hv] at hrun hhtml
  subst hhtml
  exact ⟨v, hrun, rfl, hlabels⟩

end Html
end MarkupHtml
