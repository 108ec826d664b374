import MarkupHtml.Proofs.Html.Alike
import MarkupHtml.Proofs.Html.Notes

namespace MarkupHtml

theorem openFrom_keyPlain {e : Event} (h : e.keyBracket = .plain) (outer : List Container)
    (es : List Event) : openFrom outer (e :: es) = openFrom outer es := by
  cases e with
  | start | stop => cases h
  | _ => rfl

theorem Event.eq_start_of_keyBracket {e : Event} {k : ContainerKey}
    (h : e.keyBracket = .opens k) : ∃ c a, e = .start c a ∧ c.key = k := by
  cases e with
  | start c a =>
    cases h
    exact ⟨c, a, rfl, rfl⟩
  | _ => cases h

theorem openFrom_balanced {es : List Event} (h : Bracket.Balanced Event.keyBracket es)
    (outer : List Container) : openFrom outer es = outer := by
  induction h using Bracket.Balanced.induction generalizing outer with
  | nil => rfl
  | plain e es he h ih => rw [openFrom_keyPlain he, ih]
  | pair x inner y rest k hx hy hi hr ihi ihr =>
    obtain ⟨c, a, rfl, rfl⟩ := Event.eq_start_of_keyBracket hx
    obtain ⟨c', rfl, _⟩ := Event.eq_stop_of_keyBracket hy
    change openFrom (c :: outer) (inner ++ .stop c' :: rest) = outer
    rw [openFrom_append, ihi]
    exact ihr outer

theorem endsNote_of_balanced {es : List Event} (h : Bracket.Balanced Event.keyBracket es)
    (hd : ∀ e ∈ es, e.definedLabel? = none) : ∀ e ∈ es, e.endsNote = false := by
  induction h using Bracket.Balanced.induction with
  | nil => exact nofun
  | plain e es he h ih =>
    rw [List.forall_mem_cons] at hd ⊢
    refine ⟨?_, ih hd.2⟩
    cases e with
    | stop => cases he
    | _ => rfl
  | pair x inner y rest k hx hy hi hr ihi ihr =>
    simp only [List.forall_mem_cons, List.forall_mem_append] at hd ⊢
    refine ⟨?_, ihi hd.2.1, ?_, ihr hd.2.2.2⟩
    · cases x with
      | stop => cases hx
      | _ => rfl
    · obtain ⟨c, a, rfl, hkey⟩ := Event.eq_start_of_keyBracket hx
      obtain ⟨c', rfl, hkey'⟩ := Event.eq_stop_of_keyBracket hy
      cases c' with
      | footnote =>
        rw [← hkey'] at hkey
        cases c with
        | footnote label => cases hd.1
        | _ => cases hkey
      | _ => rfl

theorem notesApart_append (outer : List Container) (es fs : List Event) :
    NotesApart outer (es ++ fs) = (NotesApart outer es && NotesApart (openFrom outer es) fs) := by
  induction es generalizing outer with
  | nil => rfl
  | cons e es ih =>
    rw [List.cons_append, NotesApart, NotesApart, ih, Bool.and_assoc, ← openFrom_append]
    rfl

theorem notesApart_of_undefined {es : List Event} (hd : ∀ e ∈ es, e.definedLabel? = none)
    (outer : List Container) : NotesApart outer es = true := by
  induction es generalizing outer with
  | nil => rfl
  | cons e es ih =>
    rw [List.forall_mem_cons] at hd
    rw [NotesApart, hd.1, ih hd.2]
    rfl

namespace Html.Writer

variable {w u v : Writer} {outer : List Container} {e : Event} {es fs : List Event}

/-- A writer whose lists, notes and table heads are all open. -/
structure Steady (w : Writer) (outer : List Container) : Prop where
  inside : w.Inside outer
  sound : w.Sound
  head : w.tablePart = some .head → ContainerKey.tableHead ∈ w.opened

theorem steady_empty : Steady {} [] := ⟨inside_nothing, sound_empty, nofun⟩

theorem Steady.written (h : w.Steady outer) (ha : w.Accepts e) :
    (w.written e).Steady (openFrom outer [e]) := by
  refine ⟨h.inside.written ha, h.sound.written ha, ?_⟩
  rw [written_tablePart, written_opened]
  cases e with
  | start c a =>
    intro hp
    cases c with
    | tableHead => exact List.mem_cons_self
    | tableBody => cases hp
    | _ => exact List.mem_cons_of_mem _ (h.head hp)
  | stop c =>
    obtain ⟨rest, ho⟩ := List.head?_eq_some_iff.1 ha.1
    intro hp
    cases c with
    | table | tableHead => cases hp
    | _ =>
      have hin := h.head hp
      rw [ho] at hin ⊢
      exact (List.mem_cons.1 hin).resolve_left nofun
  | _ => exact h.head

theorem Steady.writeAll (h : w.Steady outer) (hw : w.writeAll es = (v, none)) :
    v.Steady (openFrom outer es) := by
  induction es generalizing w outer with
  | nil =>
    cases hw
    exact h
  | cons e es ih =>
    obtain ⟨u, hu, hes⟩ := writeAll_cons.1 hw
    obtain ⟨ha, rfl⟩ := write_ok h.inside.registered hu
    have hv := ih (h.written ha) hes
    rwa [← openFrom_append] at hv

theorem Steady.writeAll_balanced (h : w.Steady outer)
    (hb : Bracket.Balanced Event.keyBracket es) (hw : w.writeAll es = (v, none)) :
    v.Steady outer := by
  have hv := h.writeAll hw
  rwa [openFrom_balanced hb] at hv

theorem Steady.target (h : w.Steady []) : w.target = none := h.inside.target_eq_none rfl

theorem Steady.alike (hw : w.Steady []) (hu : u.Steady []) : w.Alike u := by
  have hrest {w : Writer} (hw : w.Steady []) :
      w.opened = [] ∧ w.tightness = [] ∧ w.tablePart ≠ some .head := by
    have ho : w.opened = [] := hw.inside.opened
    have hlists := hw.sound.lists
    have hhead := hw.head
    rw [ho] at hlists hhead
    exact ⟨ho, List.length_eq_zero_iff.1 hlists, fun hp => nomatch hhead hp⟩
  obtain ⟨how, htw, hpw⟩ := hrest hw
  obtain ⟨hou, htu, hpu⟩ := hrest hu
  exact ⟨how.trans hou.symm, htw.trans htu.symm, iff_of_false hpw hpu⟩

theorem mem_labels_of_writeAll (hw : w.Registered) (hrun : w.writeAll (e :: es) = (v, none))
    {label : String} (he : e.noteLabel? = some label) : label ∈ v.labels := by
  obtain ⟨w', hwrite, hrest⟩ := writeAll_cons.1 hrun
  obtain ⟨_, rfl⟩ := write_ok hw hwrite
  obtain ⟨later, hlater⟩ := labels_writeAll_append (hw.written e) hrest
  have hmem : label ∈ (w.written e).labels := by
    rw [labels_written, he]
    exact mem_labels_register w label
  rw [hlater]
  exact List.mem_append_left later hmem

/-- A writer that knows all notes of a run beforehand learns of no other. -/
theorem labels_written_of_run (hw : w.Registered) (hrun : w.writeAll (e :: es) = (v, none))
    (hl : u.labels = v.labels) : (u.written e).labels = v.labels := by
  rw [labels_written]
  cases he : e.noteLabel? with
  | none => exact hl
  | some label =>
    change (u.register label).labels = v.labels
    rw [labels_register, if_pos (hl ▸ mem_labels_of_writeAll hw hrun he), hl]

/-- A run writes what a writer writes that knows all notes beforehand. -/
theorem Alike.piecesOf (h : w.Alike u) (hw : w.Registered) (hu : u.Registered)
    (hrun : w.writeAll (es ++ fs) = (v, none)) (hl : u.labels = v.labels) :
    w.piecesOf es = u.piecesOf es := by
  induction es generalizing w u with
  | nil => rfl
  | cons e es ih =>
    have hlabels := labels_written_of_run hw hrun hl
    have hpieces : w.pieces e = u.pieces e := by
      refine h.pieces fun label he => ?_
      have hsame : (u.register label).labels = u.labels := by
        rw [labels_register, if_pos (hl ▸ mem_labels_of_writeAll hw hrun he)]
      rw [number_register hw hrun he, number_congr (hsame.trans hl) label]
    obtain ⟨w', hwrite, hrest⟩ := writeAll_cons.1 hrun
    have hf : w.fault? e = none := by rw [← write_snd hw, hwrite]
    obtain ⟨_, rfl⟩ := write_ok hw hwrite
    have hwrite' := write_of_fault?_eq_none hu ((h.fault? e).symm.trans hf)
    rw [Writer.piecesOf, Writer.piecesOf, hwrite, hwrite', hpieces,
      ih (h.written e) (hw.written e) (hu.written e) hrest hlabels]

theorem piecesTo_append (b : Option String) (hw : w.writeAll es = (u, none)) (fs : List Event) :
    piecesTo b w (es ++ fs) = piecesTo b w es ++ piecesTo b u fs := by
  induction es generalizing w with
  | nil =>
    cases hw
    rfl
  | cons e es ih =>
    obtain ⟨w', hwrite, hes⟩ := writeAll_cons.1 hw
    rw [List.cons_append, piecesTo, piecesTo, hwrite, ih hes, List.append_assoc]

theorem definitions_append (hd : ∀ e ∈ es, e.definedLabel? = none)
    (hw : w.writeAll es = (u, none)) (fs : List Event) :
    w.definitions (es ++ fs) = u.definitions fs := by
  induction es generalizing w with
  | nil =>
    cases hw
    rfl
  | cons e es ih =>
    obtain ⟨w', hwrite, hes⟩ := writeAll_cons.1 hw
    rw [List.forall_mem_cons] at hd
    rw [List.cons_append, definitions_cons hd.1, hwrite, ih hd.2 hes]

theorem piecesTo_none (hr : w.Registered) (ht : w.target = none)
    (hd : ∀ e ∈ es, e.definedLabel? = none) (hw : w.writeAll es = (u, none)) :
    piecesTo none w es = w.piecesOf es := by
  induction es generalizing w with
  | nil => rfl
  | cons e es ih =>
    obtain ⟨w', hwrite, hes⟩ := writeAll_cons.1 hw
    obtain ⟨_, rfl⟩ := write_ok hr hwrite
    rw [List.forall_mem_cons] at hd
    have ht' : (w.written e).target = none := by
      cases he : e.endsNote with
      | true =>
        obtain rfl := Event.eq_stop_of_endsNote he
        exact written_target w _
      | false => rw [target_written hd.1 he, ht]
    rw [piecesTo, piecesOf, hwrite, goal_eq_target hd.1, if_pos ht,
      ih (hr.written e) ht' hd.2 hes]

theorem piecesTo_none_of_note (hr : w.Registered) {label : String} (ht : w.target = some label)
    (hd : ∀ e ∈ es, e.definedLabel? = none) (he : ∀ e ∈ es, e.endsNote = false)
    (hw : w.writeAll es = (u, none)) : piecesTo none w es = [] ∧ u.target = some label := by
  induction es generalizing w with
  | nil =>
    cases hw
    exact ⟨rfl, ht⟩
  | cons e es ih =>
    obtain ⟨w', hwrite, hes⟩ := writeAll_cons.1 hw
    obtain ⟨_, rfl⟩ := write_ok hr hwrite
    rw [List.forall_mem_cons] at hd he
    have ht' : (w.written e).target = some label := (target_written hd.1 he.1).trans ht
    obtain ⟨hnone, htarget⟩ := ih (hr.written e) ht' hd.2 he.2 hes
    refine ⟨?_, htarget⟩
    rw [piecesTo, hwrite, goal_eq_target hd.1, ht, hnone]
    rfl

end Html.Writer
end MarkupHtml
