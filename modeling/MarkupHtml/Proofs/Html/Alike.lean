import MarkupHtml.Proofs.Html.Numbering

namespace MarkupHtml.Html.Writer

variable {w u : Writer} {e : Event}

/-- Writers that differ in nothing that is looked at for an event, but perhaps in the numbers of
notes. -/
structure Alike (w u : Writer) : Prop where
  opened : w.opened = u.opened
  tightness : w.tightness = u.tightness
  head : w.tablePart = some .head ↔ u.tablePart = some .head

theorem Alike.isTight (h : w.Alike u) : w.isTight = u.isTight := by
  rw [Writer.isTight, Writer.isTight, h.tightness]

theorem Alike.cellTag (h : w.Alike u) (head : Bool) : w.cellTag head = u.cellTag head := by
  have hpart : (w.tablePart == some .head) = (u.tablePart == some .head) := by
    rw [Bool.eq_iff_iff, beq_iff_eq, beq_iff_eq]
    exact h.head
  rw [Writer.cellTag, Writer.cellTag, hpart]

theorem Alike.written (h : w.Alike u) (e : Event) : (w.written e).Alike (u.written e) where
  opened := by
    rw [written_opened, written_opened, h.opened]
  tightness := by
    rw [written_tightness, written_tightness, h.tightness]
  head := by
    rw [written_tablePart, written_tablePart]
    cases e with
    | start c a => cases c <;> first | exact h.head | exact Iff.rfl
    | stop c => cases c <;> first | exact h.head | exact Iff.rfl
    | _ => exact h.head

theorem Alike.fault? (h : w.Alike u) (e : Event) : w.fault? e = u.fault? e := by
  have hdrops : w.dropsAttributes e = u.dropsAttributes e := by
    cases e with
    | start c a =>
      cases c with
      | paragraph => exact h.isTight
      | _ => rfl
    | _ => rfl
  have hmisfit : w.misfit? e = u.misfit? e := by
    cases e with
    | stop c =>
      have hlist : w.hasListFor c = u.hasListFor c := by
        cases c with
        | list kind => simp only [hasListFor, h.tightness]
        | _ => rfl
      simp only [misfit?, h.opened, hlist]
    | _ => rfl
  rw [Writer.fault?, Writer.fault?, hdrops, hmisfit]

theorem Alike.writeAll_snd (h : w.Alike u) (hw : w.Registered) (hu : u.Registered)
    (es : List Event) : (w.writeAll es).2 = (u.writeAll es).2 := by
  induction es generalizing w u with
  | nil => rfl
  | cons e es ih =>
    have hf := h.fault? e
    cases hfw : w.fault? e with
    | none =>
      rw [hfw] at hf
      rw [Writer.writeAll, Writer.writeAll, write_of_fault?_eq_none hw hfw,
        write_of_fault?_eq_none hu hf.symm]
      exact ih (h.written e) (hw.written e) (hu.written e)
    | some err =>
      rw [hfw] at hf
      have hsw := write_snd hw e
      have hsu := write_snd hu e
      rw [hfw] at hsw
      rw [← hf] at hsu
      rw [Writer.writeAll, Writer.writeAll]
      cases hcw : w.write e with
      | mk w' err' =>
        cases hcu : u.write e with
        | mk u' err'' =>
          rw [hcw] at hsw
          rw [hcu] at hsu
          cases hsw
          cases hsu
          rfl

theorem Alike.startPieces (h : w.Alike u) {c : Container}
    (hn : ∀ label, c = .footnote label → w.number label = u.number label) (a : Attributes) :
    w.startPieces c a = u.startPieces c a := by
  cases c with
  | heading level id => simp only [Writer.startPieces, h.opened]
  | paragraph => simp only [Writer.startPieces, h.isTight]
  | tableCell alignment head => simp only [Writer.startPieces, h.cellTag]
  | footnote label => simp only [Writer.startPieces, hn label rfl]
  | _ => rfl

theorem Alike.stopPieces (h : w.Alike u) (c : ContainerEnd) :
    w.stopPieces c = u.stopPieces c := by
  cases c with
  | paragraph => simp only [Writer.stopPieces, h.isTight]
  | tableCell head => simp only [Writer.stopPieces, h.cellTag]
  | _ => rfl

theorem Alike.enter (h : w.Alike u) (c : Container) : (w.enter c).Alike (u.enter c) := by
  refine ⟨?_, ?_, ?_⟩
  · rw [enter_opened, enter_opened, h.opened]
  · have ht := (h.written (.start c {})).tightness
    simp only [Writer.written, put_tightness] at ht
    exact ht
  · have hp := (h.written (.start c {})).head
    simp only [Writer.written, put_tablePart] at hp
    exact hp

/-- Where the number of its note is the same, an event is written the same. -/
theorem Alike.pieces (h : w.Alike u)
    (hn : ∀ label, e.noteLabel? = some label →
      (w.register label).number label = (u.register label).number label) :
    w.pieces e = u.pieces e := by
  cases e with
  | start c a =>
    refine (h.enter c).startPieces (fun label hc => ?_) a
    subst hc
    have hnumber (w : Writer) : (w.enter (.footnote label)).number label =
        (w.register label).number label := number_congr (labels_enter_footnote w label) label
    rw [hnumber, hnumber, hn label rfl]
  | stop c => exact h.stopPieces c
  | footnoteReference label => simp only [Writer.pieces, leafPieces, hn label rfl]
  | _ => rfl

end MarkupHtml.Html.Writer
